import OrionMesh.GpuDetect
import OrionMesh.Proofs.Placement

/-!
# GPUs from the card to the placement

The listing of `nvidia-smi` reads back card by card (`parseNvidiaSmi_listing`), its memory rounded
to GiB, so that a placement which asks for a card of so many GiB accepts the node if and only if one
lacks at most half a GiB of it. What `lspci` lists has no memory to meet such a placement with.
-/

namespace OrionMesh

open Wire (NodeGpu GpuRequirement U32)

/-- A card, by its name and its memory in MiB. -/
structure NvidiaCard where
  name : String
  vramMib : U32

namespace NvidiaCard

/-- `--format=csv,noheader,nounits`. -/
def line (card : NvidiaCard) : List Char :=
  card.name.toList ++ ',' :: ' ' :: (toString card.vramMib.toNat).toList

def listing (cards : List NvidiaCard) : String :=
  String.ofList (cards.flatMap fun card => card.line ++ ['\n'])

/-- The name stands on one line and has no comma. -/
def Plain (card : NvidiaCard) : Prop := ',' ∉ card.name.toList ∧ '\n' ∉ card.name.toList

instance (card : NvidiaCard) : Decidable card.Plain := inferInstanceAs (Decidable (_ ∧ _))

def gpu (card : NvidiaCard) : NodeGpu := ⟨.nvidia, gbOfMib card.vramMib, some (trim card.name)⟩

end NvidiaCard

open NvidiaCard (listing)

/-! ## The memory -/

theorem gbOfMib_toNat (mib : U32) : (gbOfMib mib).toNat = max ((mib.toNat + 512) / 1024) 1 := by
  have hfloor : ⌊(mib.toNat : ℚ) / 1024 + 1 / 2⌋ = (((mib.toNat + 512) / 1024 : ℕ) : ℤ) := by
    have hsum : (mib.toNat : ℚ) / 1024 + 1 / 2 = ((mib.toNat + 512 : ℕ) : ℚ) / (1024 : ℕ) := by
      push_cast
      ring
    rw [hsum, Rat.floor_natCast_div_natCast, Int.natCast_div]
  have hlt := mib.isLt
  rw [gbOfMib, hfloor, Int.toNat_natCast, BitVec.toNat_ofNat, Nat.mod_eq_of_lt]
  omega

/-- A card lacks at most half a GiB of what is asked for, or no more than one GiB is. -/
theorem le_gbOfMib_iff {min mib : U32} :
    min ≤ gbOfMib mib ↔ min.toNat ≤ 1 ∨ 1024 * min.toNat ≤ mib.toNat + 512 := by
  rw [BitVec.le_def, gbOfMib_toNat]
  omega

/-! ## The listing -/

theorem isDigit_repr {n : ℕ} : ∀ c ∈ (toString n).toList, c.isDigit := by
  intro c hc
  rw [Nat.toString_eq_repr, Nat.toList_repr] at hc
  exact Nat.isDigit_of_mem_toDigits (by decide) (by decide) hc

theorem repr_ne_nil {n : ℕ} : (toString n).toList ≠ [] := by
  rw [Nat.toString_eq_repr, Nat.toList_repr]
  exact Nat.toDigits_ne_nil

theorem parseUint_toString (n : U32) : parseUint 32 (toString n.toNat) = .ok n := by
  have hunsigned : unsigned (toString n.toNat).toList = (toString n.toNat).toList := by
    rw [unsigned, if_neg]
    intro h
    exact absurd (isDigit_repr '+' (List.mem_of_head? h)) (by decide)
  rw [parseUint_eq_ok_iff, IsDecimal, hunsigned]
  refine ⟨repr_ne_nil, isDigit_repr, ?_⟩
  rw [Nat.toString_eq_repr, Nat.toList_repr, Nat.ofDigitChars_ten_toDigits]

theorem stripNewline_concat {line : List Char} (h : line.getLast? ≠ some '\r') :
    stripNewline (line ++ ['\n']) = line := by
  simp [stripNewline, h]

namespace NvidiaCard

variable {card : NvidiaCard}

theorem getLast?_line : ∀ c ∈ card.line.getLast?, c.isDigit := by
  intro c hc
  have hlast : card.line.getLast? = (toString card.vramMib.toNat).toList.getLast? := by
    rw [line, List.getLast?_append_of_ne_nil _ (List.cons_ne_nil _ _), List.getLast?_cons_cons]
    exact (List.getLast?_append_of_ne_nil [' '] repr_ne_nil)
  rw [hlast] at hc
  exact isDigit_repr c (List.mem_of_getLast? hc)

theorem parseNvidiaLine_line (h : card.Plain) :
    parseNvidiaLine (String.ofList card.line) = some card.gpu := by
  have hdigit : ∀ c ∈ (toString card.vramMib.toNat).toList, isWhitespace c = false := fun c hc =>
    isWhitespace_of_isAlphanum (by rw [Char.isAlphanum, isDigit_repr c hc, Bool.or_true])
  have hvram : (' ' :: (toString card.vramMib.toNat).toList).splitOn ','
      = [' ' :: (toString card.vramMib.toNat).toList] := by
    refine List.splitOn_eq_singleton fun hmem => ?_
    rcases List.mem_cons.1 hmem with heq | hmem
    · exact absurd heq (by decide)
    · exact absurd (isDigit_repr ',' hmem) (by decide)
  have htrim : trim (String.ofList (' ' :: (toString card.vramMib.toNat).toList))
      = toString card.vramMib.toNat := by
    calc trim (String.ofList (' ' :: (toString card.vramMib.toNat).toList))
        = trim (String.ofList (toString card.vramMib.toNat).toList) := by
          rw [trim, trim, String.toList_ofList, String.toList_ofList,
            List.dropWhile_cons_of_pos (by decide)]
      _ = toString card.vramMib.toNat := by
          rw [trim_of_no_whitespace hdigit, String.ofList_toList]
  rw [parseNvidiaLine, String.toList_ofList, line, List.splitOn_append_cons_self_of_not_mem h.1,
    hvram, List.map_cons, List.map_cons, List.map_nil, htrim, String.ofList_toList]
  simp only [parseUint_toString]
  rfl

theorem newline_notMem_line (h : card.Plain) : '\n' ∉ card.line := by
  rw [line, List.mem_append, List.mem_cons, List.mem_cons]
  rintro (hname | heq | heq | hdigit)
  · exact h.2 hname
  · exact absurd heq (by decide)
  · exact absurd heq (by decide)
  · exact absurd (isDigit_repr '\n' hdigit) (by decide)

end NvidiaCard

/-- Each card is read, in the order listed. -/
theorem parseNvidiaSmi_listing {cards : List NvidiaCard} (h : ∀ card ∈ cards, card.Plain) :
    parseNvidiaSmi (listing cards) = cards.map NvidiaCard.gpu := by
  have hlines : ∀ line ∈ cards.map NvidiaCard.line, '\n' ∉ line := by
    intro line hline
    obtain ⟨card, hcard, rfl⟩ := List.mem_map.1 hline
    exact NvidiaCard.newline_notMem_line (h card hcard)
  have hlisting : listing cards
      = String.ofList ((cards.map NvidiaCard.line).flatMap (· ++ ['\n'])) := by
    rw [listing, List.flatMap_map]
  have hparse : ∀ card ∈ cards,
      parseNvidiaLine (String.ofList (stripNewline (card.line ++ ['\n']))) = some card.gpu := by
    intro card hcard
    rw [stripNewline_concat, NvidiaCard.parseNvidiaLine_line (h card hcard)]
    intro hr
    exact absurd (NvidiaCard.getLast?_line '\r' hr) (by decide)
  rw [parseNvidiaSmi, hlisting, strLines_flatMap hlines, List.map_map, List.filterMap_map]
  simp only [Function.comp_def]
  rw [List.filterMap_congr hparse, List.filterMap_eq_map']

/-! ## The placement -/

theorem detectGpusLinux_listing {cards : List NvidiaCard} (h : ∀ card ∈ cards, card.Plain)
    (hne : cards ≠ []) (lspci : Option String) :
    detectGpusLinux (some (listing cards)) lspci = cards.map NvidiaCard.gpu := by
  rw [detectGpusLinux, Option.map_some, Option.getD_some, parseNvidiaSmi_listing h, if_pos]
  simpa using hne

/-- A device of `lspci` has no memory. -/
theorem vramGb_of_parseLspciLine {line : String} {g : NodeGpu} (h : parseLspciLine line = some g) :
    g.vramGb = 0 := by
  rw [parseLspciLine] at h
  split_ifs at h
  obtain ⟨vendor, -, rfl⟩ := Option.map_eq_some_iff.1 h
  rfl

/-- A placement that asks for a GPU accepts a node with NVIDIA cards if and only if it asks for no
other vendor and some card has the memory it asks for, less half a GiB at most (any card has one
GiB). A node where `nvidia-smi` finds no card, or is not there, never has the memory asked for. -/
theorem gpu_requirement_met_iff {cards : List NvidiaCard} (h : ∀ card ∈ cards, card.Plain)
    (need : GpuRequirement) (lspci : Option String) :
    (cards ≠ [] →
      (Wire.gpuMatches (detectGpusLinux (some (listing cards)) lspci) need = true
        ↔ (∀ vendor, need.vendor = some vendor → vendor = .nvidia)
          ∧ ∃ card ∈ cards, ∀ min, need.minVramGb = some min →
            min.toNat ≤ 1 ∨ 1024 * min.toNat ≤ card.vramMib.toNat + 512))
    ∧ ∀ nvidiaSmi : Option String, (nvidiaSmi.map parseNvidiaSmi).getD [] = [] →
      Wire.gpuMatches (detectGpusLinux nvidiaSmi lspci) need = true →
        ∀ min, need.minVramGb = some min → min = 0 := by
  constructor
  · intro hne
    rw [detectGpusLinux_listing h hne, gpuMatches_iff]
    constructor
    · rintro ⟨g, hg, hfits⟩
      obtain ⟨card, hcard, rfl⟩ := List.mem_map.1 hg
      refine ⟨fun vendor hv => (hfits.vendor vendor hv).symm, card, hcard, fun min hmin => ?_⟩
      exact le_gbOfMib_iff.1 (hfits.vram min hmin)
    · rintro ⟨hvendor, card, hcard, hvram⟩
      refine ⟨card.gpu, List.mem_map_of_mem hcard, fun vendor hv => (hvendor vendor hv).symm, ?_⟩
      exact fun min hmin => le_gbOfMib_iff.2 (hvram min hmin)
  · intro nvidiaSmi hempty hmatch min hmin
    obtain ⟨g, hg, hfits⟩ := gpuMatches_iff.1 hmatch
    have hzero : g.vramGb = 0 := by
      rw [detectGpusLinux, hempty, if_neg (by simp)] at hg
      rcases lspci with _ | out
      · cases hg
      · obtain ⟨line, -, hline⟩ := List.mem_filterMap.1 hg
        exact vramGb_of_parseLspciLine hline
    have hle := hfits.vram min hmin
    rw [hzero] at hle
    exact BitVec.le_zero_iff.1 hle

def rtx4090 : NvidiaCard := ⟨"NVIDIA GeForce RTX 4090", 24564⟩

theorem rtx4090_has_24 : Wire.gpuMatches (detectGpusLinux (some (listing [rtx4090])) none)
    ⟨some .nvidia, some 24⟩ = true := by
  have hplain : ∀ card ∈ [rtx4090], card.Plain := by
    intro card hcard
    rw [List.mem_singleton.1 hcard]
    exact ⟨by decide, by decide⟩
  refine ((gpu_requirement_met_iff hplain ⟨some .nvidia, some 24⟩ none).1 (by simp)).2 ⟨?_, ?_⟩
  · intro vendor hv
    exact (Option.some.inj hv).symm
  · refine ⟨rtx4090, List.mem_singleton_self _, fun min hmin => .inr ?_⟩
    rw [← Option.some.inj hmin]
    decide

end OrionMesh
