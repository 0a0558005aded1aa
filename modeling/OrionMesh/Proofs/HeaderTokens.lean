import OrionMesh.Proofs.JsonSlices

/-!
# The words of a header

A header is the layout of its bytes as gaps and words (`parseHeaderRow_tokens`): the loops of the
source go on by at least one byte each time, and find it, as does the scanner of the model, which
reads each byte once.
-/

namespace OrionMesh

namespace JsonCmd

open Runs (Layout)

/-- Where a run starts and ends. -/
def span (c : ℕ × List ℕ) : ℕ × ℕ := (c.1, c.1 + c.2.length)

theorem headerLoop_layout (bytes : List ℕ) (i : ℕ) : ∃ cols,
    Layout isGap i (bytes.drop i) cols ∧ headerLoop bytes i = cols.map span := by
  fun_induction headerLoop bytes i with
  | case1 i h start hlt stop ih =>
    obtain ⟨cols, hcols, hloop⟩ := ih
    refine ⟨_, hcols.step rfl rfl hlt, ?_⟩
    have hstop : stop = start + ((bytes.drop start).takeWhile fun b => !isGap b).length :=
      Runs.advance_eq _ _ _
    rw [hloop, List.map_cons, span, ← hstop]
  | case2 i h start hle => exact ⟨[], Layout.stop (not_lt.1 hle), rfl⟩
  | case3 i h =>
    rw [List.drop_of_length_le (not_lt.1 h)]
    exact ⟨[], .nil (by simp), rfl⟩

theorem headerSpans_gaps : ∀ {gaps : List ℕ}, (∀ b ∈ gaps, isGap b = true) →
    ∀ (i : ℕ) (rest : List ℕ),
      headerSpans none i (gaps ++ rest) = headerSpans none (i + gaps.length) rest
  | [], _, _, _ => rfl
  | b :: gaps, h, i, rest => by
    rw [List.forall_mem_cons] at h
    rw [List.cons_append, headerSpans, if_pos h.1, headerSpans_gaps h.2, List.length_cons,
      Nat.add_right_comm, Nat.add_assoc]

/-- A run is over at a gap, or at the end. -/
theorem headerSpans_end {rest : List ℕ} (h : ∀ b ∈ rest.head?, isGap b = true) (start i : ℕ) :
    headerSpans (some start) i rest = (start, i) :: headerSpans none i rest := by
  cases rest with
  | nil => rfl
  | cons b rest => rw [headerSpans, if_pos (h b rfl), headerSpans, if_pos (h b rfl)]

theorem headerSpans_layout {i : ℕ} {bytes : List ℕ} {cols : List (ℕ × List ℕ)}
    (h : Layout isGap i bytes cols) : headerSpans none i bytes = cols.map span := by
  induction h with
  | @nil i gaps hgaps =>
    have hspans := headerSpans_gaps hgaps i []
    rwa [List.append_nil] at hspans
  | @cons i gaps run rest cols hgaps hne hrun hend hrest ih =>
    obtain ⟨b, run, rfl⟩ := List.exists_cons_of_ne_nil hne
    rw [List.forall_mem_cons] at hrun
    have hlen : i + gaps.length + 1 + run.length = i + gaps.length + (b :: run).length := by
      rw [List.length_cons]
      omega
    rw [headerSpans_gaps hgaps, List.cons_append, headerSpans, if_neg (by simp [hrun.1]),
      headerSpans_run hrun.2, headerSpans_end hend, hlen, ih]
    rfl

theorem length_utf8Bytes : ∀ s : List Char,
    (utf8Bytes (String.ofList s)).length = byteLen s
  | [] => rfl
  | c :: s => by
    rw [utf8Bytes_cons, List.length_append, List.length_map, String.length_utf8EncodeChar,
      length_utf8Bytes s, byteLen]

/-- What is sliced at a run has the bytes of the run. -/
theorem utf8Bytes_slice {line word : String} {cols : List (ℕ × List ℕ)}
    (h : Layout isGap 0 (utf8Bytes line) cols) {c : ℕ × List ℕ} (hc : c ∈ cols)
    (hslice : slice line (span c).1 (span c).2 = some word) : utf8Bytes word = c.2 := by
  obtain ⟨front, back, hbytes, hfront⟩ := h.exists_split hc
  obtain ⟨pre, post, hline, hpre, hword⟩ := slice_eq_some_iff.1 hslice
  have hcut : utf8Bytes line = utf8Bytes (String.ofList pre)
      ++ (utf8Bytes word ++ utf8Bytes (String.ofList post)) := by
    rw [← String.ofList_toList (s := line), hline, List.append_assoc, utf8Bytes_append,
      utf8Bytes_append, String.ofList_toList]
  have hlen : (utf8Bytes word).length = c.2.length := by
    rw [byteLen_append, hpre] at hword
    rw [← String.ofList_toList (s := word), length_utf8Bytes]
    exact Nat.add_left_cancel hword
  rw [hcut] at hbytes
  have htail := (List.append_inj hbytes (by
    rw [length_utf8Bytes, hpre, span, ← hfront, Nat.zero_add])).2
  exact (List.append_inj htail hlen).1

theorem map_eq_of_forall₂ {α β γ : Type} {R : α → β → Prop} {f : β → γ} {g : α → γ} :
    ∀ {l : List α} {l' : List β}, List.Forall₂ R l l' →
      (∀ a ∈ l, ∀ b, R a b → f b = g a) → l'.map f = l.map g
  | _, _, .nil, _ => rfl
  | a :: _, b :: _, .cons hab hrest, h => by
    rw [List.map_cons, List.map_cons, h a List.mem_cons_self b hab,
      map_eq_of_forall₂ hrest fun a ha => h a (List.mem_cons_of_mem _ ha)]

/-- A header is sliced at the runs of bytes other than spaces and tabs, each at its offset, and
there are no others. -/
theorem parseHeaderRow_tokens (line : String) : ∃ headers starts,
    parseHeaderRow line = some (headers, starts) ∧
      headers.length = starts.length ∧ starts.Pairwise (· < ·) ∧
      (∀ cols, Layout isGap 0 (utf8Bytes line) cols ↔
        cols = starts.zip (headers.map utf8Bytes)) ∧
      (headerLoop (utf8Bytes line) 0).mapM (fun p => slice line p.1 p.2) = some headers ∧
      (headerLoop (utf8Bytes line) 0).map Prod.fst = starts := by
  obtain ⟨cols, hlayout, hloop⟩ := headerLoop_layout (utf8Bytes line) 0
  rw [List.drop_zero] at hlayout
  have hspans : headerSpans none 0 (utf8Bytes line) = headerLoop (utf8Bytes line) 0 := by
    rw [headerSpans_layout hlayout, hloop]
  obtain ⟨headers, hrow, -⟩ := parseHeaderRow_eq line
  have hslices : (headerLoop (utf8Bytes line) 0).mapM (fun p => slice line p.1 p.2)
      = some headers := by
    obtain ⟨headers', hslices, hpair⟩ := Option.map_eq_some_iff.1 hrow
    rw [← hspans, hslices, (Prod.mk.inj hpair).1]
  have hstarts : (headerLoop (utf8Bytes line) 0).map Prod.fst = cols.map Prod.fst := by
    rw [hloop, List.map_map]
    rfl
  have hwords : headers.map utf8Bytes = cols.map Prod.snd := by
    have hpairs := mapM_eq_some_iff.1 hslices
    rw [hloop, List.forall₂_map_left_iff] at hpairs
    exact map_eq_of_forall₂ hpairs fun c hc word hslice => utf8Bytes_slice hlayout hc hslice
  refine ⟨headers, cols.map Prod.fst, ?_, ?_, hlayout.sorted.2, fun cols' => ?_, hslices, hstarts⟩
  · rw [parseHeaderRow, hspans, hslices, hstarts]
    rfl
  · have hlen := congrArg List.length hwords
    simpa using hlen
  · rw [hwords, ← List.zip_of_prod rfl rfl]
    exact ⟨fun h => h.unique hlayout, fun h => h ▸ hlayout⟩

end JsonCmd

end OrionMesh
