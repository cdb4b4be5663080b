/-
  ModelStreamer.Planning.Positions
  ────────────────────────────────
  **WHICH TASKS AND REQUESTS BELONG TO WHICH RANGE.**

  A range is known by its position: the index of its file and its index in
  the file.  Positions are pairwise distinct (`indexFiles_keys`), so
  selecting a plan's tasks and requests by position finds exactly what that
  range was cut into (`AllCut.select`).  `plan_counts` is the consequence
  the delivery of responses rests on: each range has ONE `Request`, and the
  request's counter is the number of tasks that will report to it.
-/
import ModelStreamer.Planning.Planned

namespace ModelStreamer.Planning

/-! ## §1. Ranges and their positions. -/

/-- Range `j` of file `f`. -/
def rangeAt (request : List FileRanges) (f j : Nat) : Option ReadRange :=
  request[f]?.bind (fun file => file.ranges[j]?)

theorem mem_indexRanges {f i : Nat} {ranges : List ReadRange} {r : Indexed} :
    r ∈ indexRanges f i ranges ↔
      r.fileIndex = f ∧ i ≤ r.index ∧ ranges[r.index - i]? = some r.range := by
  induction ranges generalizing i with
  | nil => simp [indexRanges]
  | cons range ranges ih =>
      rw [indexRanges, List.mem_cons, ih]
      constructor
      · rintro (rfl | ⟨hf, hi, hget⟩)
        · exact ⟨rfl, Nat.le_refl _, by simp⟩
        · refine ⟨hf, by omega, ?_⟩
          rw [show r.index - i = r.index - (i + 1) + 1 by omega]
          exact hget
      · rintro ⟨hf, hi, hget⟩
        by_cases hhead : r.index = i
        · left
          obtain ⟨f', j, range'⟩ := r
          simp only at hf hhead hget
          subst hf hhead
          simpa using hget.symm
        · right
          refine ⟨hf, by omega, ?_⟩
          rw [show r.index - i = r.index - (i + 1) + 1 by omega] at hget
          exact hget

theorem mem_indexFiles {request : List FileRanges} {n : Nat} {r : Indexed} :
    r ∈ indexFiles n request ↔
      n ≤ r.fileIndex ∧ rangeAt request (r.fileIndex - n) r.index = some r.range := by
  induction request generalizing n with
  | nil => simp [indexFiles, rangeAt]
  | cons file files ih =>
      rw [indexFiles, List.mem_append, mem_indexRanges, ih]
      constructor
      · rintro (⟨hf, -, hget⟩ | ⟨hf, hget⟩)
        · refine ⟨by omega, ?_⟩
          simpa [rangeAt, hf] using hget
        · refine ⟨by omega, ?_⟩
          rw [show r.fileIndex - n = r.fileIndex - (n + 1) + 1 by omega]
          exact hget
      · rintro ⟨hf, hget⟩
        by_cases hhead : r.fileIndex = n
        · left
          refine ⟨hhead, Nat.zero_le _, ?_⟩
          simpa [rangeAt, hhead] using hget
        · right
          refine ⟨by omega, ?_⟩
          rw [show r.fileIndex - n = r.fileIndex - (n + 1) + 1 by omega] at hget
          exact hget

/-- The position of a range. -/
def Indexed.key (r : Indexed) : Nat × Nat := (r.fileIndex, r.index)

theorem indexRanges_keys (f i : Nat) (ranges : List ReadRange) :
    ((indexRanges f i ranges).map Indexed.key).Nodup := by
  induction ranges generalizing i with
  | nil => simp [indexRanges]
  | cons range ranges ih =>
      rw [indexRanges, List.map_cons, List.nodup_cons]
      refine ⟨fun hmem => ?_, ih _⟩
      obtain ⟨r, hr, hkey⟩ := List.mem_map.mp hmem
      have := (mem_indexRanges.mp hr).2.1
      simp only [Indexed.key, Prod.mk.injEq] at hkey
      omega

/-- No two ranges have one position. -/
theorem indexFiles_keys (n : Nat) (request : List FileRanges) :
    ((indexFiles n request).map Indexed.key).Nodup := by
  induction request generalizing n with
  | nil => simp [indexFiles]
  | cons file files ih =>
      rw [indexFiles, List.map_append, List.nodup_append]
      refine ⟨indexRanges_keys _ _ _, ih _, ?_⟩
      intro a ha b hb hab
      obtain ⟨r, hr, rfl⟩ := List.mem_map.mp ha
      obtain ⟨q, hq, rfl⟩ := List.mem_map.mp hb
      have h₁ := (mem_indexRanges.mp hr).1
      have h₂ := (mem_indexFiles.mp hq).1
      simp only [Indexed.key, Prod.mk.injEq] at hab
      omega

/-! ## §2. The tasks and requests of one range. -/

/-- The position a request answers for. -/
def Request.key (r : Request) : Nat × Nat := (r.fileIndex, r.index)

/-- The tasks built for range `j` of file `f`. -/
def Plan.tasksOf (p : Plan) (f j : Nat) : List Task :=
  p.tasks.filter (fun task => decide (task.request.key = (f, j)))

/-- The requests made for range `j` of file `f`. -/
def Plan.requestsOf (p : Plan) (f j : Nat) : List Request :=
  p.requests.filter (fun r => decide (r.key = (f, j)))

theorem CutInto.key {f j : Nat} {range : ReadRange} {cut : Request × List Task}
    (h : CutInto f j range cut) :
    cut.1.key = (f, j) ∧ ∀ task ∈ cut.2, task.request.key = (f, j) := by
  have hkey : cut.1.key = (f, j) := by
    rw [h.request_eq]
    rfl
  obtain ⟨k, sizes, -, -, hpieces⟩ := h.pieces
  refine ⟨hkey, fun task htask => ?_⟩
  rw [hpieces, tasksOf] at htask
  obtain ⟨e, -, rfl⟩ := List.mem_map.mp htask
  exact hkey

/-- Every request and task answers for one of the ranges. -/
theorem AllCut.known {ranges : List Indexed} {cuts : List (Request × List Task)}
    (h : AllCut ranges cuts) :
    (∀ r ∈ cuts.map Prod.fst, r.key ∈ ranges.map Indexed.key) ∧
      ∀ task ∈ (cuts.map Prod.snd).flatten, task.request.key ∈ ranges.map Indexed.key := by
  induction h with
  | nil => simp
  | cons hcut _ ih =>
      obtain ⟨hkey, htasks⟩ := hcut.key
      refine ⟨fun r hr => ?_, fun task htask => ?_⟩
      · rw [List.map_cons, List.mem_cons] at hr ⊢
        rcases hr with rfl | hr
        · exact .inl hkey
        · exact .inr (ih.1 r hr)
      · rw [List.map_cons, List.flatten_cons, List.mem_append] at htask
        rw [List.map_cons, List.mem_cons]
        rcases htask with htask | htask
        · exact .inl (htasks task htask)
        · exact .inr (ih.2 task htask)

/-- **One range, one cut**: selecting by position finds exactly the request
and the tasks of that range. -/
theorem AllCut.select {ranges : List Indexed} {cuts : List (Request × List Task)}
    (h : AllCut ranges cuts) :
    (ranges.map Indexed.key).Nodup → ∀ r ∈ ranges, ∃ cut,
      CutInto r.fileIndex r.index r.range cut ∧
      (cuts.map Prod.fst).filter (fun q => decide (q.key = r.key)) = [cut.1] ∧
      (cuts.map Prod.snd).flatten.filter (fun task => decide (task.request.key = r.key))
        = cut.2 := by
  induction h with
  | nil =>
      intro _ r hr
      simp at hr
  | @cons r₀ cut ranges cuts hcut hall ih =>
      intro hnodup r hr
      rw [List.map_cons, List.nodup_cons] at hnodup
      have hkey : cut.1.key = r₀.key := hcut.key.1
      have htasks : ∀ task ∈ cut.2, task.request.key = r₀.key := hcut.key.2
      obtain ⟨hknown, hknown'⟩ := AllCut.known hall
      rcases List.mem_cons.mp hr with rfl | hr
      · -- the position occurs nowhere in the tail
        refine ⟨cut, hcut, ?_, ?_⟩
        · rw [List.map_cons, List.filter_cons_of_pos (by simpa using hkey),
            List.filter_eq_nil_iff.mpr]
          intro q hq
          simp only [decide_eq_true_eq]
          rintro heq
          exact hnodup.1 (heq ▸ hknown q hq)
        · rw [List.map_cons, List.flatten_cons, List.filter_append,
            List.filter_eq_self.mpr (fun task htask => by simpa using htasks task htask),
            List.filter_eq_nil_iff.mpr, List.append_nil]
          intro task htask
          simp only [decide_eq_true_eq]
          rintro heq
          exact hnodup.1 (heq ▸ hknown' task htask)
      · obtain ⟨cut', hcut', hreq, htask⟩ := ih hnodup.2 r hr
        -- the head has another position
        have hne : r₀.key ≠ r.key := by
          intro heq
          exact hnodup.1 (List.mem_map.mpr ⟨r, hr, heq.symm⟩)
        refine ⟨cut', hcut', ?_, ?_⟩
        · rw [List.map_cons, List.filter_cons_of_neg (by rw [hkey]; simpa using hne), hreq]
        · rw [List.map_cons, List.flatten_cons, List.filter_append, htask,
            List.filter_eq_nil_iff.mpr, List.nil_append]
          intro task hmem
          rw [htasks task hmem]
          simpa using hne

/-! ## §3. Every plan that is built. -/

/-- **One request per range**, which counts the range's tasks. -/
theorem plan_counts {config : Config} {submissionId : Nat} {request : List FileRanges}
    {p : Plan} (hworkers : 1 ≤ numWorkers config request)
    (h : plan config submissionId request = .ok p) :
    ∀ r ∈ indexFiles 0 request, ∃ q, p.requestsOf r.fileIndex r.index = [q] ∧
      q.tasks = (p.tasksOf r.fileIndex r.index).length ∧ 1 ≤ q.tasks := by
  obtain ⟨⟨cuts, hall, hreq, hperm⟩, -⟩ := plan_ok hworkers h
  intro r hr
  obtain ⟨cut, hcut, hone, hsel⟩ := hall.select (indexFiles_keys 0 request) r hr
  have hlen : cut.1.tasks = cut.2.length := by rw [hcut.request_eq]
  obtain ⟨k, sizes, hne, -, hpieces⟩ := hcut.pieces
  refine ⟨cut.1, ?_, ?_, ?_⟩
  · rw [Plan.requestsOf, hreq]
    exact hone
  · rw [hlen, ← hsel]
    exact ((hperm.filter _).length_eq).symm
  · rw [hlen, hpieces, tasksOf, List.length_map, numbered_length]
    exact List.length_pos_of_ne_nil hne

/-- Every task answers for a range of the request. -/
theorem plan_tasks_known {config : Config} {submissionId : Nat} {request : List FileRanges}
    {p : Plan} (hworkers : 1 ≤ numWorkers config request)
    (h : plan config submissionId request = .ok p) :
    ∀ task ∈ p.tasks, task.request.key ∈ (indexFiles 0 request).map Indexed.key := by
  obtain ⟨⟨cuts, hall, -, hperm⟩, -⟩ := plan_ok hworkers h
  exact fun task htask => hall.known.2 task (hperm.mem_iff.mp htask)

end ModelStreamer.Planning
