/-
  ModelStreamer.ModelCache.Complete
  ─────────────────────────────────
  **WHAT A SKIPPED DOWNLOAD RESTS ON.**

  A process skips when the sentinel is there.  `__exit__` writes it after a
  `with` block that ended well; but a pull writes whatever the bucket lists,
  and an object can have the sentinel's name.  Then a pull that dies half way
  leaves a directory that looks complete.

    • `Spares` — the pulls that make no sentinel, and blocks that let the
      exceptions of their pulls through,
    • `skip_complete` — in every run of these, whoever is told to skip comes
      after a completed download,
    • `skip_incomplete` — an object with the sentinel's name, and a crash.
-/
import ModelStreamer.ModelCache.Exclusive

namespace ModelStreamer.ModelCache

open ModelStreamer.Lib

/-! ## §1. The condition. -/

/-- No object that the call pulls is the sentinel, or lies below it, or is
reached through it. -/
def Pull.Spares (dir : Path) (pull : Pull) : Prop :=
  ∀ file ∈ pull.listFiles, sentinel ∉ made dir (pull.localName file)

section Runs

variable {ι : Type} [DecidableEq ι]

/-- The step pulls no sentinel, and swallows no exception of a pull. -/
def Spares (dir : Path) (_ : State ι) : ι × Op → Prop
  | (_, .pullFiles pull) => pull.Spares dir
  | (_, .swallow) => False
  | _ => True

/-- A process that downloaded: its `with` block ended without an exception,
and so did all of its `pull_files` calls. -/
structure Completed (u : Use) : Prop where
  skip_eq : u.skip = some false
  finished_eq : u.finished = true
  clean_eq : u.clean = true

/-! ## §2. The invariant. -/

/-- What a process has behind it, by where it stands. -/
def Behind (u : Use) : Prop :=
  match u.pc with
  | .pulling todo => u.finished = false ∧ u.clean = true ∧ sentinel ∉ todo
  | .exiting | .sealing => Completed u
  | .unlocking | .gone => True
  | _ => u.finished = false ∧ u.clean = true

/-- The sentinel is there only if a process has completed its download. -/
structure Sealed (s : State ι) : Prop where
  behind : ∀ i, Behind (s.use i)
  complete : sentinel ∈ s.tree → ∃ j, Completed (s.use j)

/-- **One process goes on**: a completed one stays so, and the sentinel comes
only with one. -/
theorem Sealed.move {s t : State ι} (h : Sealed s) {i : ι} {u : Use}
    (huse : t.use = Function.update s.use i u) (hbehind : Behind u)
    (hstays : Completed (s.use i) → Completed u)
    (htree : sentinel ∈ t.tree → sentinel ∈ s.tree ∨ Completed u) : Sealed t := by
  have hself : t.use i = u := by rw [huse, Function.update_self]
  have hother : ∀ j, j ≠ i → t.use j = s.use j := fun j hj => by
    rw [huse, Function.update_of_ne hj]
  refine ⟨fun j => ?_, fun hmem => ?_⟩
  · by_cases hj : j = i
    · subst hj
      rw [hself]
      exact hbehind
    · rw [hother j hj]
      exact h.behind j
  · rcases htree hmem with hmem | hcompleted
    · obtain ⟨j, hj⟩ := h.complete hmem
      by_cases hji : j = i
      · subst hji
        exact ⟨j, hself ▸ hstays hj⟩
      · exact ⟨j, (hother j hji).symm ▸ hj⟩
    · exact ⟨i, hself.symm ▸ hcompleted⟩

/-- Before its `with` block ends, a process has not completed. -/
theorem not_completed {u : Use} (h : u.finished = false) : ¬ Completed u := by
  intro hcompleted
  rw [hcompleted.finished_eq] at h
  simp at h

omit [DecidableEq ι] in
theorem Sealed.at {s : State ι} (h : Sealed s) {i : ι} {pc : Pc} (hpc : (s.use i).pc = pc) :
    Behind ((s.use i).goto pc) := by
  subst hpc
  exact h.behind i

/-- The same for a process before the end of its block, which adds no
sentinel. -/
theorem Sealed.go {s t : State ι} (h : Sealed s) {i : ι} {u : Use}
    (huse : t.use = Function.update s.use i u) (hbehind : Behind u)
    (hopen : (s.use i).finished = false)
    (htree : sentinel ∈ t.tree → sentinel ∈ s.tree) : Sealed t :=
  h.move huse hbehind (fun hcompleted => absurd hcompleted (not_completed hopen))
    (fun hmem => .inl (htree hmem))

theorem sealed_step {dir : Path} {s t : State ι} {a : ι × Op} (h : Sealed s)
    (hinv : Inv s) (hspares : Spares dir s a) (hstep : Step dir s a t) : Sealed t := by
  cases hstep with
  | openLock hpc =>
      have hat := h.at hpc
      exact h.go rfl hat hat.1 id
  | flockShared hpc hgrants =>
      have hat := h.at hpc
      exact h.go rfl hat hat.1 id
  | lookFirst hpc =>
      have hat := h.at hpc
      split <;> exact h.go rfl hat hat.1 id
  | flockUnlock hpc =>
      have hat := h.at hpc
      exact h.go rfl hat hat.1 id
  | flockExclusive hpc hgrants =>
      have hat := h.at hpc
      exact h.go rfl hat hat.1 id
  | lookAgain hpc =>
      have hat := h.at hpc
      split <;> exact h.go rfl hat hat.1 id
  | downgrade hpc =>
      have hat := h.at hpc
      exact h.go rfl hat hat.1 id
  | convert hpc hgrants =>
      have hat := h.at hpc
      exact h.go rfl hat hat.1 id
  | @lookDir i hpc =>
      have hat := h.at hpc
      refine h.go rfl ?_ hat.1 id
      split <;> exact hat
  | @removeEntry i path hpc hmem hleaf =>
      refine h.move (Function.update_eq_self i s.use).symm (h.behind i) id (fun hin => ?_)
      exact .inl (List.mem_of_mem_filter hin)
  | removed hpc hgone =>
      have hat := h.at hpc
      exact h.go rfl hat hat.1 id
  | makedirs hpc =>
      have hat := h.at hpc
      refine h.go rfl hat hat.1 (fun hin => ?_)
      exact (List.mem_insert_iff.mp hin).resolve_left (by simp [sentinel])
  | pullSkipped pull hpc hskip => exact h
  | pullFiles pull hpc hskip =>
      have hat := h.at hpc
      refine h.go rfl ⟨hat.1, hat.2, fun hin => ?_⟩ hat.1 id
      obtain ⟨file, hfile, hmade⟩ := List.mem_flatMap.mp hin
      exact hspares file hfile hmade
  | make path todo hpc =>
      obtain ⟨hopen, hclean, hspared⟩ := h.at hpc
      rw [List.mem_cons, not_or] at hspared
      refine h.go rfl ⟨hopen, hclean, hspared.2⟩ hopen (fun hin => ?_)
      exact (List.mem_insert_iff.mp hin).resolve_left hspared.1
  | returned hpc =>
      obtain ⟨hopen, hclean, -⟩ := h.at hpc
      exact h.go rfl ⟨hopen, hclean⟩ hopen id
  | swallow todo hpc => exact hspares.elim
  | @leave i hpc =>
      have hat := h.at hpc
      refine h.move rfl ?_ (fun hcompleted => absurd hcompleted (not_completed hat.1)) .inl
      show Behind (s.use i).leave
      unfold Use.leave
      by_cases hskip : (s.use i).skip = some true
      · rw [if_pos hskip]
        exact trivial
      · rw [if_neg hskip]
        have hfalse := ((hinv.at hpc).resolve_left (fun hboth => hskip hboth.1)).1
        exact ⟨hfalse, rfl, hat.2⟩
  | @listdir i hpc hdir =>
      have hat := h.at hpc
      refine h.move rfl ?_ (fun _ => ?_) .inl
      · show Behind _
        split
        · exact trivial
        · exact ⟨hat.skip_eq, hat.finished_eq, hat.clean_eq⟩
      · exact ⟨hat.skip_eq, hat.finished_eq, hat.clean_eq⟩
  | writeSentinel hpc hdir =>
      have hat := h.at hpc
      have hcompleted : Completed ((s.use _).goto .unlocking) :=
        ⟨hat.skip_eq, hat.finished_eq, hat.clean_eq⟩
      exact h.move rfl trivial (fun _ => hcompleted) (fun _ => .inr hcompleted)
  | @fail i hinit hgone =>
      refine h.move rfl trivial (fun hcompleted => ?_) .inl
      refine ⟨hcompleted.skip_eq, hcompleted.finished_eq, ?_⟩
      -- a process that has completed is in no pull
      show (s.use i).raise.clean = true
      unfold Use.raise
      dsimp only
      split
      next todo hpc => exact absurd hcompleted (not_completed (h.at hpc).1)
      next => exact hcompleted.clean_eq
  | unlock hpc =>
      exact h.move rfl trivial
        (fun hcompleted => ⟨hcompleted.skip_eq, hcompleted.finished_eq, hcompleted.clean_eq⟩) .inl
  | die =>
      exact h.move rfl trivial
        (fun hcompleted => ⟨hcompleted.skip_eq, hcompleted.finished_eq, hcompleted.clean_eq⟩) .inl

theorem reachable_sealed {dir : Path} {tree : List Path} (htree : sentinel ∉ tree) :
    ∀ s, ((cache ι dir tree).restrict (Spares dir)).Reachable s → Sealed s := by
  apply System.Reachable.invariant
  · rintro s ⟨-, huse, htree_eq⟩
    refine ⟨fun i => ?_, fun hmem => ?_⟩
    · rw [huse]
      exact ⟨rfl, rfl⟩
    · rw [htree_eq] at hmem
      exact absurd hmem htree
  · intro s a t hs h hstep
    exact sealed_step h (reachable_inv s hs.of_restrict) hstep.1 hstep.2

/-! ## §3. The decision to skip. -/

/-- **A SKIPPED DOWNLOAD IS A COMPLETE ONE**, in every run whose pulls make no
sentinel and whose blocks let the exceptions of their pulls through: when a
process is told to skip, another one has completed its download. -/
theorem skip_complete {dir : Path} {tree : List Path} (htree : sentinel ∉ tree) {s t : State ι}
    (hs : ((cache ι dir tree).restrict (Spares dir)).Reachable s) {a : ι × Op}
    (hstep : Step dir s a t) {i : ι} (hbefore : (s.use i).skip ≠ some true)
    (hafter : (t.use i).skip = some true) : ∃ j, j ≠ i ∧ Completed (s.use j) := by
  have hinv := reachable_inv s hs.of_restrict
  have hi : i = a.1 := by
    by_contra hne
    rw [step_other hstep hne] at hafter
    exact hbefore hafter
  subst hi
  rcases step_skip hstep with hsame | ⟨hpc, hskip⟩
  · rw [hsame] at hafter
    exact absurd hafter hbefore
  · obtain ⟨j, hj⟩ := (reachable_sealed htree s hs).complete (hskip hafter)
    refine ⟨j, ?_, hj⟩
    rintro rfl
    have hnone : (s.use a.1).skip = none := by
      rcases hpc with hpc | hpc <;> exact (hinv.at hpc).1
    rw [hj.skip_eq] at hnone
    simp at hnone

end Runs

/-! ## §4. Two processes. -/

/-- A model of one file. -/
def oneFile : Pull := ⟨"s3://bucket/model/".toList, ["model/config.json".toList], none, none⟩

theorem oneFile_spares : oneFile.Spares cacheDir := by
  unfold Pull.Spares
  decide

/-- A process downloads the file, and the other one skips. -/
theorem skip_complete_one : ∃ s : State Bool,
    ((cache Bool cacheDir []).restrict (Spares cacheDir)).Reachable s ∧
      ∃ j, j ≠ true ∧ Completed (s.use j) := by
  have next : ∀ {s t : State Bool} {a : Bool × Op},
      ((cache Bool cacheDir []).restrict (Spares cacheDir)).Reachable s → Step cacheDir s a t →
        Spares cacheDir s a → ((cache Bool cacheDir []).restrict (Spares cacheDir)).Reachable t :=
    fun h hstep hspares => .step h ⟨hspares, hstep⟩
  have h₀ : ((cache Bool cacheDir []).restrict (Spares cacheDir)).Reachable (twoProcesses []) :=
    .init ⟨rfl, fun _ => rfl, rfl⟩
  have h₁ := next h₀ (Step.openLock (i := false) rfl) trivial
  have h₂ := next h₁ (Step.flockShared (i := false) rfl (other_free rfl _)) trivial
  have h₃ := next h₂ (Step.lookFirst (i := false) rfl) trivial
  have h₄ := next h₃ (Step.flockUnlock (i := false) rfl) trivial
  have h₅ := next h₄ (Step.flockExclusive (i := false) rfl (other_free rfl _)) trivial
  have h₆ := next h₅ (Step.lookAgain (i := false) rfl) trivial
  have h₇ := next h₆ (Step.lookDir (i := false) rfl) trivial
  have h₈ := next h₇ (Step.makedirs (i := false) rfl) trivial
  have h₉ := next h₈ (Step.pullFiles (i := false) oneFile rfl rfl) oneFile_spares
  have h₁₀ := next h₉ (Step.make (i := false) ["config.json".toList] [] rfl) trivial
  have h₁₁ := next h₁₀ (Step.returned (i := false) rfl) trivial
  have h₁₂ := next h₁₁ (Step.leave (i := false) rfl) trivial
  have h₁₃ := next h₁₂ (Step.listdir (i := false) rfl (by decide)) trivial
  have h₁₄ := next h₁₃ (Step.writeSentinel (i := false) rfl (by decide)) trivial
  have h₁₅ := next h₁₄ (Step.unlock (i := false) rfl) trivial
  have h₁₆ := next h₁₅ (Step.openLock (i := true) rfl) trivial
  have h₁₇ := next h₁₆ (Step.flockShared (i := true) rfl (other_free rfl _)) trivial
  exact ⟨_, h₁₇, skip_complete (by decide) h₁₇ (Step.lookFirst (i := true) rfl) (by decide) rfl⟩

/-- A cache directory that was uploaded: its sentinel is one of the objects. -/
def uploadedBack : Pull :=
  ⟨"s3://bucket/model/".toList, ["model/.runai_complete".toList, "model/config.json".toList],
    none, none⟩

/-- **A skip without a download**: the process dies once it has pulled the
object with the sentinel's name, and the other one skips. -/
theorem skip_incomplete : ∃ (s t : State Bool) (a : Bool × Op),
    (cache Bool cacheDir []).Reachable s ∧ Step cacheDir s a t ∧
      (s.use true).skip ≠ some true ∧ (t.use true).skip = some true ∧
      (∀ j, ¬ Completed (s.use j)) ∧ ["config.json".toList] ∉ s.tree := by
  have h₀ := twoProcesses_init []
  have h₁ := h₀.step (Step.openLock (i := false) rfl)
  have h₂ := h₁.step (Step.flockShared (i := false) rfl (other_free rfl _))
  have h₃ := h₂.step (Step.lookFirst (i := false) rfl)
  have h₄ := h₃.step (Step.flockUnlock (i := false) rfl)
  have h₅ := h₄.step (Step.flockExclusive (i := false) rfl (other_free rfl _))
  have h₆ := h₅.step (Step.lookAgain (i := false) rfl)
  have h₇ := h₆.step (Step.lookDir (i := false) rfl)
  have h₈ := h₇.step (Step.makedirs (i := false) rfl)
  have h₉ := h₈.step (Step.pullFiles (i := false) uploadedBack rfl rfl)
  have h₁₀ := h₉.step (Step.make (i := false) sentinel [["config.json".toList]] rfl)
  have h₁₁ := h₁₀.step (Step.die (i := false))
  have h₁₂ := h₁₁.step (Step.openLock (i := true) rfl)
  have h₁₃ := h₁₂.step (Step.flockShared (i := true) rfl (other_free rfl _))
  refine ⟨_, _, _, h₁₃, Step.lookFirst (i := true) rfl, by decide, rfl, ?_, by decide⟩
  intro j
  cases j with
  | false => exact not_completed rfl
  | true => exact not_completed rfl

end ModelStreamer.ModelCache
