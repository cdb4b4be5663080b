/-
  ModelStreamer.ModelCache.Exclusive
  ──────────────────────────────────
  **ONE DOWNLOAD AT A TIME, AND NONE UNDER A READER.**

  Who holds the lock follows from where each process stands (`Fits`); that
  carries the three facts the protocol is for: a process about to clear the
  directory has seen no sentinel, and there is none until it downloads; a
  process told to skip has seen one; and these two kinds never meet.

    • `Inv.move`, `Inv.decide` — the two kinds of steps,
    • `lock_protocol` — in every run, with crashes and exceptions anywhere and
      any directory to begin with.
-/
import ModelStreamer.ModelCache.Protocol

namespace ModelStreamer.ModelCache

open ModelStreamer.Lib

/-! ## §1. The invariant. -/

/-- How a process holds the lock, by where it stands. -/
def Fits (u : Use) (held : Option LockMode) : Prop :=
  match u.pc with
  | .init | .opened | .unlocked => u.skip = none ∧ held = none
  | .shared | .releasing => u.skip = none ∧ held = some .shared
  | .exclusive => u.skip = none ∧ held = some .exclusive
  | .downgrading => u.skip = some true ∧ held = some .exclusive
  | .converting => u.skip = some true ∧ held = none
  | .looking | .removing | .making | .pulling _ | .exiting | .sealing =>
      u.skip = some false ∧ held = some .exclusive
  | .block =>
      (u.skip = some true ∧ held = some .shared) ∨ (u.skip = some false ∧ held = some .exclusive)
  | .unlocking => u.skip = some false → held = some .exclusive
  | .gone => held = none

/-- Between deciding to download and releasing the lock. -/
def Downloading (u : Use) : Prop := u.skip = some false ∧ u.pc ≠ .gone

/-- Before the directory is made anew. -/
def Clearing (u : Use) : Prop := u.pc = .looking ∨ u.pc = .removing ∨ u.pc = .making

theorem Fits.exclusive {u : Use} {held : Option LockMode} (h : Fits u held)
    (hdown : Downloading u) : held = some .exclusive := by
  obtain ⟨hskip, hgone⟩ := hdown
  unfold Fits at h
  split at h <;> simp_all

theorem Fits.clearing {u : Use} {held : Option LockMode} (h : Fits u held)
    (hclear : Clearing u) : Downloading u := by
  unfold Fits at h
  rcases hclear with hpc | hpc | hpc <;> simp only [hpc] at h <;>
    exact ⟨h.1, by simp [hpc]⟩

section Runs

variable {ι : Type} [DecidableEq ι]

/-- What holds between any two steps. -/
structure Inv (s : State ι) : Prop where
  fits : ∀ i, Fits (s.use i) (s.lock.holder i)
  absent : ∀ i, Clearing (s.use i) → sentinel ∉ s.tree
  told : ∀ j, (s.use j).skip = some true → sentinel ∈ s.tree
  apart : ∀ i, Downloading (s.use i) → ∀ j, (s.use j).skip ≠ some true

omit [DecidableEq ι] in
/-- Two processes that download are one. -/
theorem Inv.one {s : State ι} (h : Inv s) {i j : ι} (hi : Downloading (s.use i))
    (hj : Downloading (s.use j)) : i = j := by
  refine s.lock.exclusive_alone ((h.fits i).exclusive hi) ?_
  rw [(h.fits j).exclusive hj]
  simp

/-- **Process `i` goes on without deciding.**  It keeps its decision, and what
it does to the directory spares the sentinel of the others. -/
theorem Inv.move {s t : State ι} (h : Inv s) {i : ι} {u : Use}
    (huse : t.use = Function.update s.use i u) (hfits : Fits u (t.lock.holder i))
    (hother : ∀ j, j ≠ i → t.lock.holder j = s.lock.holder j)
    (hskip : u.skip = (s.use i).skip) (hgone : u.pc ≠ .gone → (s.use i).pc ≠ .gone)
    (hkeep : sentinel ∈ s.tree → sentinel ∈ t.tree)
    (hself : Clearing u → sentinel ∉ t.tree)
    (hothers : ∀ j, j ≠ i → Clearing (s.use j) → sentinel ∉ t.tree) : Inv t := by
  have hself_use : t.use i = u := by rw [huse, Function.update_self]
  have hother_use : ∀ j, j ≠ i → t.use j = s.use j := fun j hj => by
    rw [huse, Function.update_of_ne hj]
  have hskips : ∀ j, (t.use j).skip = (s.use j).skip := by
    intro j
    by_cases hj : j = i
    · subst hj
      rw [hself_use, hskip]
    · rw [hother_use j hj]
  refine ⟨fun j => ?_, fun j hclear => ?_, fun j hj => ?_, fun j hdown k => ?_⟩
  · by_cases hj : j = i
    · subst hj
      rw [hself_use]
      exact hfits
    · rw [hother_use j hj, hother j hj]
      exact h.fits j
  · by_cases hj : j = i
    · subst hj
      rw [hself_use] at hclear
      exact hself hclear
    · rw [hother_use j hj] at hclear
      exact hothers j hj hclear
  · rw [hskips] at hj
    exact hkeep (h.told j hj)
  · rw [hskips]
    refine h.apart j ⟨?_, ?_⟩ k
    · rw [← hskips]
      exact hdown.1
    · by_cases hj : j = i
      · subst hj
        have hpc := hdown.2
        rw [hself_use] at hpc
        exact hgone hpc
      · rw [← hother_use j hj]
        exact hdown.2

/-- The same, where the directory stays as it is. -/
theorem Inv.stay {s t : State ι} (h : Inv s) {i : ι} {u : Use}
    (huse : t.use = Function.update s.use i u) (htree : t.tree = s.tree)
    (hfits : Fits u (t.lock.holder i))
    (hother : ∀ j, j ≠ i → t.lock.holder j = s.lock.holder j)
    (hskip : u.skip = (s.use i).skip) (hgone : u.pc ≠ .gone → (s.use i).pc ≠ .gone)
    (hself : Clearing u → Clearing (s.use i)) : Inv t := by
  refine h.move huse hfits hother hskip hgone (fun hmem => htree ▸ hmem)
    (fun hclear => ?_) (fun j _ hclear => ?_)
  · rw [htree]
    exact h.absent i (hself hclear)
  · rw [htree]
    exact h.absent j hclear

/-- **Process `i` downloads, and adds a path to the directory.**  Nobody else
is about to clear it. -/
theorem Inv.add {s t : State ι} (h : Inv s) {i : ι} {u : Use} {path : Path}
    (huse : t.use = Function.update s.use i u) (htree : t.tree = s.tree.insert path)
    (hlock : t.lock = s.lock) (hfits : Fits u (s.lock.holder i))
    (hskip : u.skip = (s.use i).skip) (hdown : Downloading (s.use i))
    (hself : ¬ Clearing u) : Inv t := by
  refine h.move huse (by rw [hlock]; exact hfits) (fun j _ => by rw [hlock]) hskip
    (fun _ => hdown.2) (fun hmem => ?_) (fun hclear => absurd hclear hself) (fun j hj hclear => ?_)
  · rw [htree]
    exact List.mem_insert_of_mem hmem
  · exact absurd (h.one ((h.fits j).clearing hclear) hdown) hj

/-- **Process `i` decides**, holding the lock: to skip when the sentinel is
there, to download when it is not and the lock is exclusive. -/
theorem Inv.decide {s : State ι} (h : Inv s) {i : ι} {f : Use → Use}
    (hheld : s.lock.holder i ≠ none) (hfits : Fits (f (s.use i)) (s.lock.holder i))
    (hskip : ((f (s.use i)).skip = some true ∧ sentinel ∈ s.tree) ∨
      ((f (s.use i)).skip = some false ∧ sentinel ∉ s.tree))
    (hself : Clearing (f (s.use i)) → sentinel ∉ s.tree) : Inv (s.move i f) := by
  have hself_use : (s.move i f).use i = f (s.use i) := Function.update_self ..
  have hother_use : ∀ j, j ≠ i → (s.move i f).use j = s.use j :=
    fun j hj => Function.update_of_ne hj ..
  refine ⟨fun j => ?_, fun j hclear => ?_, fun j hj => ?_, fun j hdown k hk => ?_⟩
  · by_cases hj : j = i
    · subst hj
      rw [hself_use]
      exact hfits
    · rw [hother_use j hj]
      exact h.fits j
  · by_cases hj : j = i
    · subst hj
      rw [hself_use] at hclear
      exact hself hclear
    · rw [hother_use j hj] at hclear
      exact h.absent j hclear
  · by_cases hji : j = i
    · subst hji
      rw [hself_use] at hj
      rcases hskip with ⟨-, hmem⟩ | ⟨hfalse, -⟩
      · exact hmem
      · simp [hfalse] at hj
    · rw [hother_use j hji] at hj
      exact h.told j hj
  · -- one of the two is the process that decides
    by_cases hji : j = i
    · subst hji
      rw [hself_use] at hdown
      have habsent : sentinel ∉ s.tree := by
        rcases hskip with ⟨htrue, -⟩ | ⟨-, habsent⟩
        · simp [hdown.1] at htrue
        · exact habsent
      by_cases hki : k = j
      · subst hki
        rw [hself_use, hdown.1] at hk
        simp at hk
      · rw [hother_use k hki] at hk
        exact habsent (h.told k hk)
    · rw [hother_use j hji] at hdown
      -- a downloader holds the lock alone, so nobody decides
      exact hji (s.lock.exclusive_alone ((h.fits j).exclusive hdown) hheld)

/-! ## §2. Steps. -/

omit [DecidableEq ι] in
/-- The lock and the decision of a process, where it stands. -/
theorem Inv.at {s : State ι} (h : Inv s) {i : ι} {pc : Pc} (hpc : (s.use i).pc = pc) :
    Fits ((s.use i).goto pc) (s.lock.holder i) := by
  subst hpc
  exact h.fits i

/-- **Every step keeps the invariant.** -/
theorem inv_step {dir : Path} {s t : State ι} {a : ι × Op} (h : Inv s)
    (hstep : Step dir s a t) : Inv t := by
  cases hstep with
  | openLock hpc =>
      have hat := h.at hpc
      exact h.stay rfl rfl hat (fun _ _ => rfl) rfl (by simp [hpc]) (by simp [Clearing])
  | flockShared hpc hgrants =>
      have hat := h.at hpc
      exact h.stay rfl rfl ⟨hat.1, s.lock.acquire_self _ _ hgrants⟩
        (fun j hj => s.lock.acquire_other _ hgrants hj) rfl (by simp [hpc]) (by simp [Clearing])
  | @lookFirst i hpc =>
      obtain ⟨hskip, hheld⟩ := h.at hpc
      split
      next hmem =>
        exact h.decide (by simp [hheld]) (.inl ⟨rfl, hheld⟩) (.inl ⟨rfl, hmem⟩)
          (by simp [Clearing])
      next =>
        exact h.stay rfl rfl ⟨hskip, hheld⟩ (fun _ _ => rfl) rfl (by simp [hpc])
          (by simp [Clearing])
  | @flockUnlock i hpc =>
      have hat := h.at hpc
      exact h.stay rfl rfl ⟨hat.1, s.lock.release_self i⟩
        (fun j hj => s.lock.release_other i hj) rfl (by simp [hpc]) (by simp [Clearing])
  | flockExclusive hpc hgrants =>
      have hat := h.at hpc
      exact h.stay rfl rfl ⟨hat.1, s.lock.acquire_self _ _ hgrants⟩
        (fun j hj => s.lock.acquire_other _ hgrants hj) rfl (by simp [hpc]) (by simp [Clearing])
  | @lookAgain i hpc =>
      obtain ⟨-, hheld⟩ := h.at hpc
      split
      next hmem =>
        exact h.decide (by simp [hheld]) ⟨rfl, hheld⟩ (.inl ⟨rfl, hmem⟩) (by simp [Clearing])
      next habsent =>
        exact h.decide (by simp [hheld]) ⟨rfl, hheld⟩ (.inr ⟨rfl, habsent⟩) (fun _ => habsent)
  | @downgrade i hpc =>
      have hat := h.at hpc
      exact h.stay rfl rfl ⟨hat.1, s.lock.release_self i⟩
        (fun j hj => s.lock.release_other i hj) rfl (by simp [hpc]) (by simp [Clearing])
  | convert hpc hgrants =>
      have hat := h.at hpc
      exact h.stay rfl rfl (.inl ⟨hat.1, s.lock.acquire_self _ _ hgrants⟩)
        (fun j hj => s.lock.acquire_other _ hgrants hj) rfl (by simp [hpc]) (by simp [Clearing])
  | @lookDir i hpc =>
      have hat := h.at hpc
      refine h.stay rfl rfl ?_ (fun _ _ => rfl) rfl (by simp [hpc]) (fun _ => .inl hpc)
      show Fits _ (s.lock.holder i)
      split <;> exact hat
  | @removeEntry i path hpc hmem hleaf =>
      -- there is no sentinel, and there is none afterwards
      have habsent := h.absent i (.inr (.inl hpc))
      have habsent' : sentinel ∉ s.tree.filter (· ≠ path) :=
        fun hin => habsent (List.mem_of_mem_filter hin)
      exact h.move (Function.update_eq_self i s.use).symm (h.fits i) (fun _ _ => rfl) rfl id
        (fun hin => absurd hin habsent) (fun _ => habsent') (fun _ _ _ => habsent')
  | removed hpc hgone =>
      have hat := h.at hpc
      exact h.stay rfl rfl hat (fun _ _ => rfl) rfl (by simp [hpc]) (fun _ => .inr (.inl hpc))
  | makedirs hpc =>
      have hat := h.at hpc
      exact h.add rfl rfl rfl (.inr hat) rfl ⟨hat.1, by simp [hpc]⟩ (by simp [Clearing])
  | pullSkipped pull hpc hskip => exact h
  | @pullFiles i pull hpc hskip =>
      have hheld := (h.fits i).exclusive ⟨hskip, by simp [hpc]⟩
      exact h.stay rfl rfl ⟨hskip, hheld⟩ (fun _ _ => rfl) rfl (by simp [hpc])
        (by simp [Clearing])
  | make path todo hpc =>
      have hat := h.at hpc
      exact h.add rfl rfl rfl hat rfl ⟨hat.1, by simp [hpc]⟩ (by simp [Clearing])
  | returned hpc =>
      have hat := h.at hpc
      exact h.stay rfl rfl (.inr hat) (fun _ _ => rfl) rfl (by simp [hpc]) (by simp [Clearing])
  | swallow todo hpc =>
      have hat := h.at hpc
      exact h.stay rfl rfl (.inr hat) (fun _ _ => rfl) rfl (by simp [hpc]) (by simp [Clearing])
  | @leave i hpc =>
      have hat := h.at hpc
      refine h.stay rfl rfl ?_ (fun _ _ => rfl) rfl (by simp [hpc]) (fun hclear => ?_)
      · show Fits (s.use i).leave (s.lock.holder i)
        unfold Use.leave
        by_cases hskip : (s.use i).skip = some true
        · rw [if_pos hskip]
          intro hfalse
          have hfalse : (s.use i).skip = some false := hfalse
          simp [hskip] at hfalse
        · rw [if_neg hskip]
          exact hat.resolve_left (fun hboth => hskip hboth.1)
      · unfold Clearing Use.leave at hclear
        split at hclear <;> simp at hclear
  | @listdir i hpc hdir =>
      have hat := h.at hpc
      refine h.stay rfl rfl ?_ (fun _ _ => rfl) rfl (by simp [hpc]) (fun hclear => ?_)
      · show Fits _ (s.lock.holder i)
        split
        · exact fun _ => hat.2
        · exact hat
      · unfold Clearing at hclear
        split at hclear <;> simp at hclear
  | writeSentinel hpc hdir =>
      have hat := h.at hpc
      exact h.add rfl rfl rfl (fun _ => hat.2) rfl ⟨hat.1, by simp [hpc]⟩ (by simp [Clearing])
  | @fail i hinit hgone =>
      refine h.stay rfl rfl (fun hskip => ?_) (fun _ _ => rfl) rfl (fun _ => hgone)
        (by simp [Clearing, Use.raise])
      exact (h.fits i).exclusive ⟨hskip, hgone⟩
  | @unlock i hpc =>
      exact h.stay rfl rfl (s.lock.release_self i) (fun j hj => s.lock.release_other i hj) rfl
        (by simp) (by simp [Clearing])
  | @die i =>
      exact h.stay rfl rfl (s.lock.release_self i) (fun j hj => s.lock.release_other i hj) rfl
        (by simp) (by simp [Clearing])

theorem reachable_inv {dir : Path} {tree : List Path} :
    ∀ s, (cache ι dir tree).Reachable s → Inv s := by
  apply System.Reachable.invariant
  · rintro s ⟨hlock, huse, -⟩
    refine ⟨fun i => ?_, fun i hclear => ?_, fun j hj => ?_, fun i hdown => ?_⟩
    · rw [huse, hlock]
      exact ⟨rfl, rfl⟩
    · simp [huse, Use.new, Clearing] at hclear
    · simp [huse, Use.new] at hj
    · simp [huse, Use.new, Downloading] at hdown
  · intro s a t _ h hstep
    exact inv_step h hstep

/-! ## §3. What stays. -/

/-- Nothing is removed while the sentinel is there. -/
theorem Inv.keeps_tree {dir : Path} {s t : State ι} {a : ι × Op} (h : Inv s)
    (hmem : sentinel ∈ s.tree) (hstep : Step dir s a t) : ∀ path ∈ s.tree, path ∈ t.tree := by
  rcases step_tree hstep with hkeeps | hpc
  · exact hkeeps
  · exact absurd hmem (h.absent a.1 (.inr (.inl hpc)))

/-- A process that was told to skip was told so for good. -/
theorem Inv.keeps_skip {dir : Path} {s t : State ι} {a : ι × Op} (h : Inv s) {j : ι}
    (hj : (s.use j).skip = some true) (hstep : Step dir s a t) :
    (t.use j).skip = some true := by
  by_cases hja : j = a.1
  · subst hja
    rcases step_skip hstep with hsame | ⟨hpc, -⟩
    · rw [hsame, hj]
    · have hnone : (s.use a.1).skip = none := by
        rcases hpc with hpc | hpc <;> exact (h.at hpc).1
      simp [hnone] at hj
  · rw [step_other hstep hja, hj]

/-! ## §4. The protocol. -/

/-- What the protocol guarantees from state `s` on. -/
structure LockProtocol (dir : Path) (tree : List Path) (s : State ι) : Prop where
  one_downloader : ∀ i j, Downloading (s.use i) → Downloading (s.use j) → i = j
  no_reader : ∀ i, Downloading (s.use i) → ∀ j, (s.use j).skip ≠ some true
  never_removed : ∀ j, (s.use j).skip = some true → ∀ t, (cache ι dir tree).Leads s t →
    (t.use j).skip = some true ∧ ∀ path ∈ s.tree, path ∈ t.tree
  sentinel_stays : sentinel ∈ s.tree → ∀ t, (cache ι dir tree).Leads s t →
    ∀ path ∈ s.tree, path ∈ t.tree

/-- **THE LOCK PROTOCOL**: at most one process is between deciding to download
and releasing its lock, and then no process was ever told to skip; the
directory of a process that was told to skip stays as it is, and so does an
existing sentinel. -/
theorem lock_protocol {dir : Path} {tree : List Path} {s : State ι}
    (h : (cache ι dir tree).Reachable s) : LockProtocol dir tree s := by
  have hinv := reachable_inv s h
  have hstays : sentinel ∈ s.tree → ∀ t, (cache ι dir tree).Leads s t →
      ∀ path ∈ s.tree, path ∈ t.tree := by
    intro hmem t hleads path hpath
    have hboth : sentinel ∈ t.tree ∧ path ∈ t.tree := by
      refine System.Leads.keeps (p := fun t => sentinel ∈ t.tree ∧ path ∈ t.tree)
        (fun u a v hu hmem hstep => ?_) h ⟨hmem, hpath⟩ hleads
      have hkeeps := (reachable_inv u hu).keeps_tree hmem.1 hstep
      exact ⟨hkeeps _ hmem.1, hkeeps _ hmem.2⟩
    exact hboth.2
  refine ⟨fun i j hi hj => hinv.one hi hj, hinv.apart, fun j hj t hleads => ⟨?_, ?_⟩, hstays⟩
  · refine System.Leads.keeps (p := fun t => (t.use j).skip = some true)
      (fun u a v hu hskip hstep => ?_) h hj hleads
    exact (reachable_inv u hu).keeps_skip hskip hstep
  · exact hstays (hinv.told j hj) t hleads

end Runs

/-! ## §5. Two processes. -/

/-- A cache directory. -/
def cacheDir : Path := ["cache".toList]

/-- Two processes, and the cache directory with what is in it. -/
def twoProcesses (tree : List Path) : State Bool := ⟨.free, fun _ => .new, tree⟩

theorem twoProcesses_init (tree : List Path) :
    (cache Bool cacheDir tree).Reachable (twoProcesses tree) :=
  .init ⟨rfl, fun _ => rfl, rfl⟩

/-- Of two processes, the other one does not hold the lock. -/
theorem other_free {l : Flock Bool} {i : Bool} (h : l.holder (!i) = none) (mode : LockMode) :
    l.Grants i mode := by
  refine Flock.grants_of_free (fun j hj => ?_) mode
  rw [← Bool.eq_not_of_ne hj] at h
  exact h

/-- One of them finds an old file, and decides to download. -/
theorem lock_protocol_two : ∃ s : State Bool,
    (cache Bool cacheDir [[], ["old".toList]]).Reachable s ∧ Downloading (s.use false) ∧
      LockProtocol cacheDir [[], ["old".toList]] s := by
  have h₀ := twoProcesses_init [[], ["old".toList]]
  have h₁ := h₀.step (Step.openLock (i := false) rfl)
  have h₂ := h₁.step (Step.flockShared (i := false) rfl (other_free rfl _))
  have h₃ := h₂.step (Step.lookFirst (i := false) rfl)
  have h₄ := h₃.step (Step.flockUnlock (i := false) rfl)
  have h₅ := h₄.step (Step.flockExclusive (i := false) rfl (other_free rfl _))
  have h₆ := h₅.step (Step.lookAgain (i := false) rfl)
  have h₇ := h₆.step (Step.lookDir (i := false) rfl)
  have h₈ := h₇.step (Step.removeEntry (i := false) ["old".toList] rfl (by decide) (by decide))
  exact ⟨_, h₈, ⟨rfl, by decide⟩, lock_protocol h₈⟩

end ModelStreamer.ModelCache
