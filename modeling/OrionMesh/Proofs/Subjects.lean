import OrionMesh.Topics

/-!
# Per-node subjects

A wildcard stands for one token, and a node id with a dot is several: its subjects are subscribed to
by nobody. The subjects themselves tell apart topics and ids, dots or not.
-/

namespace OrionMesh

open Subject

namespace Topic

theorem tokens_control (id : NodeId) {suffix action : String} (h : suffix = "." ++ action) :
    tokens ("orion.control." ++ id ++ suffix)
      = tokens "orion.control" ++ (tokens id ++ tokens action) := by
  have hstem : "orion.control." ++ id = "orion.control" ++ "." ++ id := by simp
  rw [h, ← String.append_assoc, tokens_append_dot, hstem, tokens_append_dot, List.append_assoc]

/-- A per-node topic has the id where its wildcard is, between fixed tokens. -/
theorem tokens_perNode {t : Topic} (ht : t ∈ perNode) (id : NodeId) :
    ∃ before after : List Token, [] ∉ before ∧ [] ∉ after
      ∧ tokens t.asStr = before ++ ['*'] :: after
      ∧ tokens (t.forNode id) = before ++ (tokens id ++ after) := by
  simp only [perNode, List.mem_cons, List.not_mem_nil, or_false] at ht
  rcases ht with rfl | rfl | rfl | rfl | rfl | rfl
  · refine ⟨tokens "orion.logs", [], by decide, by decide, by decide, ?_⟩
    rw [List.append_nil, ← tokens_append_dot]
    rfl
  · refine ⟨tokens "orion.metrics", [], by decide, by decide, by decide, ?_⟩
    rw [List.append_nil, ← tokens_append_dot]
    rfl
  · exact ⟨tokens "orion.control", tokens "run", by decide, by decide, by decide,
      tokens_control id rfl⟩
  · exact ⟨tokens "orion.control", tokens "stop", by decide, by decide, by decide,
      tokens_control id rfl⟩
  · exact ⟨tokens "orion.control", tokens "restart", by decide, by decide, by decide,
      tokens_control id rfl⟩
  · exact ⟨tokens "orion.control", tokens "drain", by decide, by decide, by decide,
      tokens_control id rfl⟩

theorem matches_forNode_iff {t : Topic} (ht : t ∈ perNode) {id : NodeId} (hid : [] ∉ tokens id) :
    Matches t.asStr (t.forNode id) ↔ '.' ∉ id.toList := by
  obtain ⟨before, after, hbefore, hafter, hpattern, hsubject⟩ := tokens_perNode ht id
  rw [Matches, hpattern, hsubject, forall₂_wildcard_iff hbefore hafter hid, length_tokens_eq_one]

/-- The subject tells the topic and the id. -/
theorem forNode_injective {t t' : Topic} (ht : t ∈ perNode) (ht' : t' ∈ perNode) {id id' : NodeId}
    (h : t.forNode id = t'.forNode id') : t = t' ∧ id = id' := by
  simp only [perNode, List.mem_cons, List.not_mem_nil, or_false] at ht ht'
  have hlist := congrArg String.toList h
  -- Subjects of two topics differ in the second token, or in the last.
  have hback := congrArg (List.reverse ∘ String.toList) h
  rcases ht with rfl | rfl | rfl | rfl | rfl | rfl <;>
    rcases ht' with rfl | rfl | rfl | rfl | rfl | rfl <;>
    simp at hlist hback
  all_goals exact ⟨rfl, String.toList_inj.1 hlist⟩

end Topic

/-- What the agent may run under: no space, no empty part between dots. -/
structure IsNodeId (id : NodeId) : Prop where
  no_space : ' ' ∉ id.toList
  no_empty_part : [] ∉ tokens id

/-- What the bus does for an agent of that id. -/
structure Reached (id : NodeId) : Prop where
  matched : ∀ t ∈ Topic.perNode, Matches t.asStr (t.forNode id)
  injective : ∀ t ∈ Topic.perNode, ∀ t' ∈ Topic.perNode, ∀ id', t.forNode id = t'.forNode id' →
    t = t' ∧ id = id'
  /-- A line the agent publishes reaches the subscription of `subscribe_logs`. -/
  logs_delivered : Matches Topic.logs.asStr (Topic.logs.forNode id)

/-- Per-node subjects reach their subscribers exactly for ids without a dot. -/
theorem node_subjects_reached_iff {arg env output : Option String}
    (h : IsNodeId (agentNodeId arg (hostname env output))) :
    Reached (agentNodeId arg (hostname env output))
      ↔ '.' ∉ (agentNodeId arg (hostname env output)).toList := by
  generalize agentNodeId arg (hostname env output) = id at h ⊢
  have hlogs : Topic.logs ∈ Topic.perNode := by decide
  constructor
  · intro hr
    exact (Topic.matches_forNode_iff hlogs h.no_empty_part).1 hr.logs_delivered
  · intro hdot
    exact ⟨fun t ht => (Topic.matches_forNode_iff ht h.no_empty_part).2 hdot,
      fun t ht t' ht' id' => Topic.forNode_injective ht ht',
      (Topic.matches_forNode_iff hlogs h.no_empty_part).2 hdot⟩

theorem node_subjects_reached_pi :
    Reached (agentNodeId none (hostname none (some "pi5\n"))) :=
  (node_subjects_reached_iff ⟨by decide, by decide⟩).2 (by decide)

/-- A host that names itself by its domain. -/
theorem dotted_host_not_reached :
    IsNodeId (agentNodeId none (hostname none (some "studio.local\n")))
      ∧ ¬ Reached (agentNodeId none (hostname none (some "studio.local\n"))) :=
  ⟨⟨by decide, by decide⟩, fun h => absurd h.logs_delivered (by decide)⟩

end OrionMesh
