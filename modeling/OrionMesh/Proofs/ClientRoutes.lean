import Mathlib.Data.List.Nodup
import Mathlib.Tactic.IntervalCases
import OrionMesh.HttpApi

/-!
# The clients reach the handlers they mean

Only the route for documents overlaps with another, the list of a kind. So each request leads to the
one route its path matches (`route_segments`), whatever the kind and the name are, as long as they
stand for themselves in an address.
-/

namespace OrionMesh

open Router (Pattern Matches)

/-! ## The routes -/

theorem controllerRoutes_nodup : (controllerRoutes.map Prod.fst).Nodup := by decide

/-- Where the only route that matches leads. -/
theorem route_eq {method : HttpMethod} {p : Pattern} {path args : List String} {e : Endpoint}
    (hmatch : Matches p path args)
    (honly : ∀ q ∈ controllerRoutes.map Prod.fst, (∃ args', Matches q path args') → q = p)
    (hcall : ((controllerRoutes.find? fun r => r.1 = p).bind fun r =>
      (r.2.find? fun h => h.1 = method).bind fun h => h.2.call args) = some e) :
    route method path = .handler e := by
  obtain ⟨⟨q, handlers⟩, hfind, hend⟩ := Option.bind_eq_some_iff.1 hcall
  obtain rfl : q = p := by simpa using List.find?_some hfind
  have hmem := List.mem_of_find?_eq_some hfind
  have hpick : Router.pick controllerRoutes path = some (args, handlers) := by
    refine Router.pick_eq_some hmem hmatch fun r hr hmatch' => ?_
    exact List.inj_on_of_nodup_map controllerRoutes_nodup hr hmem
      (honly r.1 (List.mem_map_of_mem hr) hmatch')
  rw [route, hpick]
  simp only [hend]

/-- A route that overlaps with no other is the only one that matches. -/
theorem only_of_apart {p : Pattern} {path args : List String} (hmatch : Matches p path args)
    (hapart : ∀ q ∈ controllerRoutes.map Prod.fst, Router.overlaps p q = true → q = p) :
    ∀ q ∈ controllerRoutes.map Prod.fst, (∃ args', Matches q path args') → q = p := by
  rintro q hq ⟨args', hmatch'⟩
  exact hapart q hq (hmatch.overlaps hmatch')

/-- No route begins with an empty segment. -/
theorem route_empty_segment (method : HttpMethod) (path : List String) :
    route method ("" :: path) = .notFound := by
  have hfirst : ∀ r ∈ controllerRoutes, r.1.head? ≠ some (.lit "") ∧ r.1.head? ≠ some .param := by
    decide
  rcases hpick : Router.pick controllerRoutes ("" :: path) with _ | ⟨args, handlers⟩
  · rw [route, hpick]
  · obtain ⟨p, hp, hmatch⟩ := Router.pick_sound hpick
    cases hmatch with
    | lit s hmatch => exact absurd rfl (hfirst _ hp).1
    | param hs hmatch => exact absurd rfl hs

variable {kind name : String}

theorem matches_kind_name (word : String) (hkind : kind ≠ "") (hname : name ≠ "") :
    Matches [.lit "v1", .lit word, .param, .param] ["v1", word, kind, name] [kind, name] :=
  .lit _ (.lit _ (.param hkind (.param hname .nil)))

theorem matches_control (verb : String) (hkind : kind ≠ "") (hname : name ≠ "") :
    Matches [.lit "v1", .lit "control", .param, .param, .lit verb]
      ["v1", "control", kind, name, verb] [kind, name] :=
  .lit _ (.lit _ (.param hkind (.param hname (.lit _ .nil))))

theorem route_list (hkind : kind ≠ "") (happly : kind ≠ "apply") :
    route .get ["v1", "resources", kind] = .handler (.listResources kind) := by
  have hmatch : Matches [.lit "v1", .lit "resources", .param] ["v1", "resources", kind] [kind] :=
    .lit _ (.lit _ (.param hkind .nil))
  refine route_eq hmatch ?_ rfl
  rintro q hq ⟨args', hmatch'⟩
  have hapart : ∀ q ∈ controllerRoutes.map Prod.fst,
      Router.overlaps [.lit "v1", .lit "resources", .param] q = true →
        q = [.lit "v1", .lit "resources", .param] ∨
          q = [.lit "v1", .lit "resources", .lit "apply"] := by decide
  refine (hapart q hq (hmatch.overlaps hmatch')).resolve_right ?_
  rintro rfl
  cases hmatch' with | lit _ h => cases h with | lit _ h => cases h with
    | lit _ h => exact happly rfl

/-! ## The addresses -/

theorem joinSegments_append (path path' : List String) :
    joinSegments (path ++ path') = joinSegments path ++ joinSegments path' := by
  rw [← String.toList_inj]
  simp [joinSegments]

theorem join_kind_name {text : String} (word : String) (h : text = "/v1/" ++ word ++ "/")
    (kind name rest : String) :
    text ++ kind ++ "/" ++ name ++ rest = joinSegments ["v1", word, kind, name] ++ rest := by
  rw [h, ← String.toList_inj]
  simp [joinSegments, String.join]

namespace ClientRequest

/-- The kind and the name stand for themselves. -/
def Plain : ClientRequest → Prop
  | list kind => PlainSegment kind
  | get kind name | delete kind name | dispatch kind name | logs kind name _ | instancesOf kind name
  | stop kind name | restart kind name | logsArchive kind name _ =>
    PlainSegment kind ∧ PlainSegment name
  | nodes | kinds | apply _ | instances | diagSystem | diagJetstream | schedulesObserved | find =>
    True

/-- What is meant to answer. -/
def endpoint : ClientRequest → Endpoint
  | nodes => .listNodes
  | kinds => .listKinds
  | list kind => .listResources kind
  | get kind name => .getResource kind name
  | delete kind name => .deleteResource kind name
  | apply _ => .applyResource
  | dispatch kind name => .dispatchResource kind name
  | logs kind name _ => .getLogs kind name
  | instances => .listAllInstances
  | instancesOf kind name => .getInstances kind name
  | stop kind name => .stopWorkload kind name
  | restart kind name => .restartWorkload kind name
  | diagSystem => .diagSystem
  | diagJetstream => .diagJetstream
  | schedulesObserved => .listScheduleObservations
  | find => .findServices
  | logsArchive kind name _ => .getLogsArchive kind name

def segments : ClientRequest → List String
  | nodes => ["v1", "nodes"]
  | kinds => ["v1", "kinds"]
  | list kind => ["v1", "resources", kind]
  | get kind name | delete kind name => ["v1", "resources", kind, name]
  | apply _ => ["v1", "resources", "apply"]
  | dispatch kind name => ["v1", "dispatch", kind, name]
  | logs kind name _ => ["v1", "logs", kind, name]
  | instances => ["v1", "instances"]
  | instancesOf kind name => ["v1", "instances", kind, name]
  | stop kind name => ["v1", "control", kind, name, "stop"]
  | restart kind name => ["v1", "control", kind, name, "restart"]
  | diagSystem => ["v1", "diag", "system"]
  | diagJetstream => ["v1", "diag", "jetstream"]
  | schedulesObserved => ["v1", "schedules", "observed"]
  | find => ["v1", "find"]
  | logsArchive kind name _ => ["v1", "logs-archive", kind, name]

/-- The question mark and what stands behind it. -/
def query : ClientRequest → String
  | apply true => "?dry_run=1"
  | logs _ _ since => sinceQuery since
  | logsArchive _ _ query => "?" ++ query
  | _ => ""

theorem path_eq (r : ClientRequest) : r.path = joinSegments r.segments ++ r.query := by
  have hempty : ∀ text : String, text = text ++ "" := fun text => String.append_empty.symm
  cases r with
  | nodes | kinds | instances | diagSystem | diagJetstream | schedulesObserved | find => decide
  | apply dryRun => cases dryRun <;> decide +kernel
  | list kind =>
    change "/v1/resources/" ++ kind = joinSegments ["v1", "resources", kind] ++ ""
    rw [← String.toList_inj]
    simp [joinSegments, String.join]
  | get kind name | delete kind name =>
    exact (hempty _).trans (join_kind_name "resources" (by decide) kind name "")
  | dispatch kind name =>
    exact (hempty _).trans (join_kind_name "dispatch" (by decide) kind name "")
  | instancesOf kind name =>
    exact (hempty _).trans (join_kind_name "instances" (by decide) kind name "")
  | logs kind name since => exact join_kind_name "logs" (by decide) kind name (sinceQuery since)
  | logsArchive kind name q =>
    exact String.append_assoc.trans (join_kind_name "logs-archive" (by decide) kind name ("?" ++ q))
  | stop kind name | restart kind name =>
    refine (join_kind_name "control" (by decide) kind name _).trans ?_
    rw [← String.toList_inj]
    simp [segments, query, joinSegments, String.join]

theorem query_head (r : ClientRequest) : r.query = "" ∨ r.query.toList.head? = some '?' := by
  cases r with
  | apply dryRun => cases dryRun <;> simp [query]
  | logs kind name since => cases since <;> simp [query, sinceQuery]
  | logsArchive kind name q => simp [query]
  | _ => simp [query]

/-- The words of the routes. -/
theorem plain_words :
    PlainSegment "v1" ∧ PlainSegment "nodes" ∧ PlainSegment "kinds" ∧ PlainSegment "resources" ∧
      PlainSegment "apply" ∧ PlainSegment "dispatch" ∧ PlainSegment "logs" ∧
      PlainSegment "instances" ∧ PlainSegment "control" ∧ PlainSegment "stop" ∧
      PlainSegment "restart" ∧ PlainSegment "diag" ∧ PlainSegment "system" ∧
      PlainSegment "jetstream" ∧ PlainSegment "schedules" ∧ PlainSegment "observed" ∧
      PlainSegment "find" ∧ PlainSegment "logs-archive" := by
  decide +kernel

theorem plain_segments {r : ClientRequest} (h : r.Plain) : ∀ s ∈ r.segments, PlainSegment s := by
  cases r with
  | list kind =>
    have h : PlainSegment kind := h
    simp [segments, plain_words, h]
  | get kind name | delete kind name | dispatch kind name | logs kind name since
  | instancesOf kind name | stop kind name | restart kind name | logsArchive kind name q =>
    obtain ⟨hkind, hname⟩ : PlainSegment kind ∧ PlainSegment name := h
    simp [segments, plain_words, hkind, hname]
  | nodes | kinds | apply dryRun | instances | diagSystem | diagJetstream | schedulesObserved
  | find => simp [segments, plain_words]

/-- Only the list of a kind named like the route for documents is not answered. -/
theorem route_segments {r : ClientRequest} (h : r.Plain) :
    route r.method r.segments =
      if r = .list "apply" then .methodNotAllowed else .handler r.endpoint := by
  cases r with
  | list kind =>
    by_cases happly : kind = "apply"
    · subst happly
      rfl
    · rw [if_neg (by simpa using happly)]
      exact route_list h.1 happly
  | get kind name | delete kind name =>
    have hmatch := matches_kind_name "resources" h.1.1 h.2.1
    exact route_eq hmatch (only_of_apart hmatch (by decide)) rfl
  | dispatch kind name =>
    have hmatch := matches_kind_name "dispatch" h.1.1 h.2.1
    exact route_eq hmatch (only_of_apart hmatch (by decide)) rfl
  | logs kind name since =>
    have hmatch := matches_kind_name "logs" h.1.1 h.2.1
    exact route_eq hmatch (only_of_apart hmatch (by decide)) rfl
  | instancesOf kind name =>
    have hmatch := matches_kind_name "instances" h.1.1 h.2.1
    exact route_eq hmatch (only_of_apart hmatch (by decide)) rfl
  | logsArchive kind name q =>
    have hmatch := matches_kind_name "logs-archive" h.1.1 h.2.1
    exact route_eq hmatch (only_of_apart hmatch (by decide)) rfl
  | stop kind name =>
    have hmatch := matches_control "stop" h.1.1 h.2.1
    exact route_eq hmatch (only_of_apart hmatch (by decide)) rfl
  | restart kind name =>
    have hmatch := matches_control "restart" h.1.1 h.2.1
    exact route_eq hmatch (only_of_apart hmatch (by decide)) rfl
  | nodes | kinds | apply dryRun | instances | diagSystem | diagJetstream | schedulesObserved
  | find => rfl

end ClientRequest

/-! ## The commands -/

theorem toUpper_ne_a (c : Char) : c.toUpper ≠ 'a' := by
  by_cases h : 'a' ≤ c ∧ c ≤ 'z'
  · refine @char_of_range c (fun c => c.toUpper ≠ 'a') 'a' 'z' h fun k hlo hhi => ?_
    change 97 ≤ k at hlo
    change k ≤ 122 at hhi
    interval_cases k <;> decide
  · rw [show c.toUpper = c from dif_neg h]
    rintro rfl
    exact h (by decide)

/-- A kind may be written in the plural and with a small letter. -/
theorem canonicalKind_spelled {c : Char} {rest : List Char}
    (hlast : (c :: rest).getLast? ≠ some 's') (n : ℕ) :
    canonicalKind (String.ofList (c :: rest ++ List.replicate n 's')) =
      String.ofList (c.toUpper :: rest) := by
  rw [canonicalKind, String.toList_ofList, rdropWhile_append_replicate hlast]

/-- No kind a user writes becomes the word of the route for documents. -/
theorem canonicalKind_ne_apply (s : String) : canonicalKind s ≠ "apply" := by
  intro h
  have hlist := congrArg String.toList h
  unfold canonicalKind at hlist
  split at hlist
  · rw [String.toList_ofList] at hlist
    exact toUpper_ne_a _ (List.cons.inj hlist).1
  · cases hlist

theorem CliCommand.request_ne_list_apply (c : CliCommand) : c.request ≠ .list "apply" := by
  cases c with
  | get kind name =>
    cases name with
    | none => exact fun h => canonicalKind_ne_apply kind (ClientRequest.list.inj h)
    | some name => nofun
  | instances kind name => cases kind <;> cases name <;> nofun
  | scheduleList | queueList => simp [request]
  | _ => nofun

/-! ## A reader of addresses -/

/-- The pieces between the slashes, up to the query. -/
def splitAddress (origin address : String) : List String :=
  ((((address.toList.drop origin.toList.length).takeWhile (· ≠ '?')).splitOn '/').drop 1).map
    String.ofList

theorem plainSegment_chars {s : String} (h : s = "" ∨ PlainSegment s) :
    '/' ∉ s.toList ∧ '?' ∉ s.toList := by
  obtain rfl | h := h
  · exact ⟨by simp, by simp⟩
  · exact ⟨fun hc => absurd (h.2.2.2 _ hc) (by decide), fun hc => absurd (h.2.2.2 _ hc) (by decide)⟩

theorem mark_notMem_joinSegments {path : List String} (h : ∀ s ∈ path, s = "" ∨ PlainSegment s) :
    '?' ∉ (joinSegments path).toList := by
  intro hc
  simp only [joinSegments, String.toList_join, List.flatMap_map, List.mem_flatMap,
    String.toList_append, List.mem_append] at hc
  obtain ⟨s, hs, hc | hc⟩ := hc
  · simp at hc
  · exact (plainSegment_chars (h s hs)).2 hc

theorem splitOn_joinSegments : ∀ {path : List String} {pre : List Char},
    (∀ s ∈ path, s = "" ∨ PlainSegment s) → '/' ∉ pre →
      (pre ++ (joinSegments path).toList).splitOn '/' = pre :: path.map String.toList
  | [], pre, _, hpre => by simpa [joinSegments] using List.splitOn_eq_singleton hpre
  | s :: path, pre, hpath, hpre => by
    have hjoin : (joinSegments (s :: path)).toList =
        '/' :: (s.toList ++ (joinSegments path).toList) := by
      rw [← List.singleton_append, joinSegments_append, String.toList_append]
      simp [joinSegments, String.join]
    have hs := (plainSegment_chars (hpath s List.mem_cons_self)).1
    rw [hjoin, List.splitOn_append_cons_self, List.splitOn_eq_singleton hpre,
      splitOn_joinSegments (fun t ht => hpath t (List.mem_cons_of_mem _ ht)) hs]
    rfl

def UrlReader.splitting (origin : String) : UrlReader origin where
  segments := splitAddress origin
  plain path query hpath hquery := by
    have hmark : ∀ c ∈ (joinSegments path).toList, decide (c ≠ '?') = true := fun c hc =>
      decide_eq_true fun hq => mark_notMem_joinSegments hpath (hq ▸ hc)
    have hcut : ((joinSegments path).toList ++ query.toList).takeWhile (· ≠ '?') =
        (joinSegments path).toList := by
      rw [List.takeWhile_append_of_pos hmark]
      obtain rfl | hquery := hquery
      · simp
      · obtain ⟨rest, hrest⟩ : ∃ rest, query.toList = '?' :: rest := by
          cases hlist : query.toList with
          | nil => simp [hlist] at hquery
          | cons c rest => exact ⟨rest, by simpa [hlist] using hquery⟩
        simp [hrest]
    have hsplit := splitOn_joinSegments hpath List.not_mem_nil
    rw [List.nil_append] at hsplit
    rw [splitAddress, String.toList_append, String.toList_append, List.append_assoc,
      List.drop_left, hcut, hsplit]
    simp

/-! ## The addresses of the controller -/

/-- What answers a request that is sent to the right path. -/
def answered (r : ClientRequest) : Routed :=
  if r = .list "apply" then .methodNotAllowed else .handler r.endpoint

theorem join_slashes (n : ℕ) (path : List String) :
    String.ofList (List.replicate n '/') ++ joinSegments path =
      joinSegments (List.replicate n "" ++ path) := by
  rw [joinSegments_append]
  congr 1
  induction n with
  | zero => rfl
  | succ n ih =>
    rw [List.replicate_succ' (a := ""), joinSegments_append, ← ih, ← String.toList_inj]
    simp [joinSegments, String.join, List.replicate_succ']

theorem trimSlashes_slashes {origin : String} (h : origin.toList.getLast? ≠ some '/') (n : ℕ) :
    trimSlashes (origin ++ String.ofList (List.replicate n '/')) = origin := by
  rw [trimSlashes, String.toList_append, String.toList_ofList, rdropWhile_append_replicate h,
    String.ofList_toList]

end OrionMesh
