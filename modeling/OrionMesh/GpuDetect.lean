import Mathlib.Algebra.Order.Floor.Ring
import Mathlib.Data.Rat.Floor
import OrionMesh.JsonCmd
import OrionMesh.Lib.Decimal
import OrionMesh.Lib.Lines
import OrionMesh.Scheduler

/-!
# GPU detection

What an agent on Linux puts in the `gpus` of its inventory: the cards that `nvidia-smi` lists, or,
if it lists none, the display devices of `lspci`, whose memory is not known. A command is its
output, if it ran and ended well.
-/

namespace OrionMesh

open Wire (NodeGpu GpuVendor Acceleration OperatingSystem U32)

/-- `((vram_mib as f64 / 1024.0).round() as u32).max(1)`. A quotient of 32 bits by a power of two is
exact, and `round` takes a half away from zero. -/
def gbOfMib (mib : U32) : U32 :=
  BitVec.ofNat 32 (max ⌊(mib.toNat : ℚ) / 1024 + 1 / 2⌋.toNat 1)

def parseNvidiaLine (line : String) : Option NodeGpu :=
  match (line.toList.splitOn ',').map fun part => trim (String.ofList part) with
  | name :: vram :: _ =>
    match parseUint 32 vram with
    | .ok mib => some ⟨.nvidia, gbOfMib mib, some name⟩
    | .error _ => none
  | _ => none

def parseNvidiaSmi (stdout : String) : List NodeGpu := (strLines stdout).filterMap parseNvidiaLine

/-- A plain `ati` is in every `VGA compatible controller`. -/
def lspciVendor (lower : String) : Option GpuVendor :=
  if contains lower "nvidia" then some .nvidia
  else if contains lower "amd" || contains lower "advanced micro devices"
      || contains lower "radeon" then some .amd
  else if contains lower "intel" then some .intel
  else none

def parseLspciLine (line : String) : Option NodeGpu :=
  if !contains line "VGA" && !contains line "3D controller"
      && !contains line "Display controller" then none
  else
    (lspciVendor (String.ofList (line.toList.flatMap JsonCmd.toLowercase))).map fun vendor =>
      ⟨vendor, 0, (line.toList.splitOn ':')[2]?.map fun model => trim (String.ofList model)⟩

def parseLspci (stdout : String) : List NodeGpu := (strLines stdout).filterMap parseLspciLine

def detectGpusLinux (nvidiaSmi lspci : Option String) : List NodeGpu :=
  let parsed := (nvidiaSmi.map parseNvidiaSmi).getD []
  if parsed ≠ [] then parsed else (lspci.map parseLspci).getD []

def primaryAcceleration (gpus : List NodeGpu) (os : OperatingSystem) : Option Acceleration :=
  if gpus.any (·.vendor = .apple) then some .metal
  else if gpus.any (·.vendor = .nvidia) then some .cuda
  else if gpus.any (·.vendor = .amd) then some .rocm
  else if os = .macos then some .coreml
  else none

end OrionMesh
