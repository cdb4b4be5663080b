/-
  ModelStreamer.Lib.Collective
  ────────────────────────────
  **PARTIES THAT ENTER BROADCASTS.**

  Each party runs its own program.  A call of `broadcast` names the party
  whose tensor is sent, and every party brings a tensor of its own: the
  `k`-th call of one party meets the `k`-th call of the others, and works
  out only if they name one source and bring tensors of one shape.  A party
  may run ahead of the others, and a source need not wait for anybody.

    • `Follows` — each party alone, given what a script says it receives,
      enters the calls of the script,
    • `Follows.entered`, `Follows.emitted`, `Follows.halted` — then so it
      does in every interleaving,
    • `Follows.advance` — and nobody gets stuck, not even where a call
      waits until all parties have entered it,
    • `Follows.bounded` — nor runs for ever.
-/
import ModelStreamer.Lib.TransitionSystem
import Mathlib.Data.List.Forall2
import Mathlib.Data.Fintype.Lattice
import Mathlib.Algebra.Order.BigOperators.Group.Finset

namespace ModelStreamer.Lib

/-! ## §1. Programs. -/

/-- What a party does next. -/
inductive Act (γ μ ω σ : Type) where
  | silent (next : σ)
  | emit (output : ω) (next : σ)
  /-- `broadcast(tensor, source)`, and how to go on with what it left there -/
  | call (source : γ) (tensor : μ) (resume : μ → σ)
  | halt

/-- The programs of the parties, and the names by which calls refer to
them. -/
structure Collective (ι γ μ ς ω σ : Type) where
  name : ι → γ
  name_injective : Function.Injective name
  shape : μ → ς
  start : ι → σ
  act : ι → σ → Act γ μ ω σ

/-- A party: its state, the calls it has entered (the last one still open
where it is waiting), and its outputs. -/
structure Party (γ μ ω σ : Type) where
  state : σ
  entered : List (γ × μ)
  waiting : Bool
  emitted : List ω

namespace Collective

variable {ι γ μ ς ω σ : Type} (P : Collective ι γ μ ς ω σ)

/-! ## §2. Interleavings. -/

/-- One party moves. -/
inductive Step [DecidableEq ι] : (ι → Party γ μ ω σ) → ι → (ι → Party γ μ ω σ) → Prop
  | silent {s : ι → Party γ μ ω σ} {r : ι} {next : σ} :
      (s r).waiting = false → P.act r (s r).state = .silent next →
      Step s r (Function.update s r ⟨next, (s r).entered, false, (s r).emitted⟩)
  | emit {s : ι → Party γ μ ω σ} {r : ι} {output : ω} {next : σ} :
      (s r).waiting = false → P.act r (s r).state = .emit output next →
      Step s r (Function.update s r ⟨next, (s r).entered, false, (s r).emitted ++ [output]⟩)
  | enter {s : ι → Party γ μ ω σ} {r : ι} {source : γ} {tensor : μ} {resume : μ → σ} :
      (s r).waiting = false → P.act r (s r).state = .call source tensor resume →
      Step s r (Function.update s r
        ⟨(s r).state, (s r).entered ++ [(source, tensor)], true, (s r).emitted⟩)
  /-- the source has entered the same call, with a tensor of this shape -/
  | complete {s : ι → Party γ μ ω σ} {r q : ι} {source : γ} {tensor sent : μ}
      {resume : μ → σ} :
      (s r).waiting = true → P.act r (s r).state = .call source tensor resume →
      P.name q = source → (s q).entered[(s r).entered.length - 1]? = some (source, sent) →
      P.shape sent = P.shape tensor →
      Step s r (Function.update s r ⟨resume sent, (s r).entered, false, (s r).emitted⟩)

/-- The system of all parties. -/
def system [DecidableEq ι] : System (ι → Party γ μ ω σ) ι where
  init s := ∀ r, s r = ⟨P.start r, [], false, []⟩
  step := P.Step

/-- A call that is over only when all parties have entered it. -/
def Rendezvous (s : ι → Party γ μ ω σ) (r : ι) : Prop :=
  (s r).waiting = true → ∀ q, (s r).entered.length ≤ (s q).entered.length

/-! ## §3. Scripts. -/

/-- The calls a party has entered are those of the script: the sources it
named, tensors of the right shape, and where it is the source, the tensor. -/
def Tallies (r : ι) (entered script : List (γ × μ)) : Prop :=
  List.Forall₂ (fun e d => e.1 = d.1 ∧ P.shape e.2 = P.shape d.2 ∧ (P.name r = e.1 → e.2 = d.2))
    entered script

/-- **Each party alone follows the script**: `along r calls out s` says that
party `r`, having completed `calls` and emitted `out`, may be in state `s`. -/
structure Follows (script : List (γ × μ)) (outputs : List ω)
    (along : ι → List (γ × μ) → List ω → σ → Prop) : Prop where
  start : ∀ r, along r [] [] (P.start r)
  within : ∀ r calls out s, along r calls out s → calls <+: script ∧ out <+: outputs
  silent : ∀ r calls out s next, along r calls out s → P.act r s = .silent next →
    along r calls out next
  emit : ∀ r calls out s output next, along r calls out s → P.act r s = .emit output next →
    along r calls (out ++ [output]) next
  call : ∀ r calls out s source tensor resume, along r calls out s →
    P.act r s = .call source tensor resume →
    ∃ sent, calls ++ [(source, sent)] <+: script ∧ P.shape sent = P.shape tensor ∧
      (P.name r = source → tensor = sent) ∧ (∃ q, P.name q = source) ∧
      along r (calls ++ [(source, sent)]) out (resume sent)
  halt : ∀ r calls out s, along r calls out s → P.act r s = .halt →
    calls = script ∧ out = outputs

variable {P} {script : List (γ × μ)} {outputs : List ω}
  {along : ι → List (γ × μ) → List ω → σ → Prop} {s t : ι → Party γ μ ω σ} {r : ι}

theorem Tallies.length {entered calls : List (γ × μ)} (h : P.Tallies r entered calls) :
    entered.length = calls.length := List.Forall₂.length_eq h

/-- The calls that are over. -/
def closed (p : Party γ μ ω σ) (calls : List (γ × μ)) : List (γ × μ) :=
  if p.waiting then calls.dropLast else calls

/-- **A party on the script**: `calls` are those it has entered. -/
structure OnScript (P : Collective ι γ μ ς ω σ) (script : List (γ × μ))
    (along : ι → List (γ × μ) → List ω → σ → Prop) (r : ι) (p : Party γ μ ω σ)
    (calls : List (γ × μ)) : Prop where
  within : calls <+: script
  tallies : P.Tallies r p.entered calls
  along : along r (closed p calls) p.emitted p.state
  /-- where it waits, the last of them is what it is calling -/
  waits : p.waiting = true → ∃ source tensor resume sent,
    P.act r p.state = .call source tensor resume ∧ (∃ q, P.name q = source) ∧
    P.shape sent = P.shape tensor ∧ calls = closed p calls ++ [(source, sent)]

/-- All parties are. -/
def AllOnScript (P : Collective ι γ μ ς ω σ) (script : List (γ × μ))
    (along : ι → List (γ × μ) → List ω → σ → Prop) (s : ι → Party γ μ ω σ) : Prop :=
  ∀ r, ∃ calls, P.OnScript script along r (s r) calls

theorem prefix_get {α : Type} {l l' : List α} (h : l <+: l') {k : Nat} {a : α}
    (hget : l[k]? = some a) : l'[k]? = some a := by
  obtain ⟨rest, rfl⟩ := h
  rw [List.getElem?_append_left (List.getElem?_eq_some_iff.mp hget).1]
  exact hget

/-- The entry after a prefix. -/
theorem prefix_last {α : Type} {l calls : List α} {a : α} (h : calls ++ [a] <+: l) :
    l[calls.length]? = some a := prefix_get h (by simp)

/-- What a source has entered as its `k`-th call is what the script has it
send. -/
theorem OnScript.sent {calls : List (γ × μ)} (h : P.OnScript script along r (s r) calls) {k : Nat}
    {sent : μ} (hget : (s r).entered[k]? = some (P.name r, sent)) :
    script[k]? = some (P.name r, sent) := by
  obtain ⟨hlt, hat⟩ := List.getElem?_eq_some_iff.mp hget
  have hlt' : k < calls.length := h.tallies.length ▸ hlt
  have hpair := h.tallies.get hlt hlt'
  rw [List.get_eq_getElem, List.get_eq_getElem, hat] at hpair
  obtain ⟨hname, -, hsame⟩ := hpair
  have hcall : calls[k] = (P.name r, sent) := Prod.ext hname.symm (hsame rfl).symm
  exact prefix_get h.within (List.getElem?_eq_some_iff.mpr ⟨hlt', hcall⟩)

/-- What an open call is on the script. -/
theorem OnScript.open_call {p : Party γ μ ω σ} {calls : List (γ × μ)}
    (h : P.OnScript script along r p calls) (hwait : p.waiting = true) :
    ∃ source tensor resume sent, P.act r p.state = .call source tensor resume ∧
      (∃ q, P.name q = source) ∧ P.shape sent = P.shape tensor ∧
      calls = closed p calls ++ [(source, sent)] ∧
      p.entered.length = (closed p calls).length + 1 ∧
      script[p.entered.length - 1]? = some (source, sent) := by
  obtain ⟨source, tensor, resume, sent, hact, hsource, hshape, hcalls⟩ := h.waits hwait
  have hlength : p.entered.length = (closed p calls).length + 1 := by
    rw [h.tallies.length]
    conv_lhs => rw [hcalls]
    rw [List.length_append, List.length_singleton]
  refine ⟨source, tensor, resume, sent, hact, hsource, hshape, hcalls, hlength, ?_⟩
  rw [hlength, Nat.add_sub_cancel]
  exact prefix_last (hcalls ▸ h.within)

theorem closed_free {p : Party γ μ ω σ} (hfree : p.waiting = false) (calls : List (γ × μ)) :
    closed p calls = calls := by
  unfold closed
  rw [hfree]
  rfl

theorem OnScript.along_free {p : Party γ μ ω σ} {calls : List (γ × μ)}
    (h : P.OnScript script along r p calls) (hfree : p.waiting = false) :
    along r calls p.emitted p.state := by
  have halong := h.along
  rw [closed_free hfree] at halong
  exact halong

/-- With no call open, a party may be in any state its calls lead to. -/
theorem OnScript.move {calls : List (γ × μ)} {p : Party γ μ ω σ}
    (h : P.OnScript script along r p calls) {next : σ} {out : List ω}
    (halong : along r calls out next) :
    P.OnScript script along r ⟨next, p.entered, false, out⟩ calls :=
  ⟨h.within, h.tallies, halong, fun hwait => by simp at hwait⟩

/-! ## §4. One step. -/

variable [DecidableEq ι]

namespace Follows

/-- **Step lemma**: a step of one party keeps it on the script, and leaves
the others alone. -/
theorem onScript_step (h : P.Follows script outputs along) (hs : P.AllOnScript script along s)
    (hstep : P.Step s r t) : P.AllOnScript script along t := by
  intro q
  by_cases hq : q = r
  case neg =>
    have hother : t q = s q := by
      cases hstep <;> exact Function.update_of_ne hq _ _
    rw [hother]
    exact hs q
  subst hq
  obtain ⟨calls, hon⟩ := hs q
  cases hstep with
  | @silent next hfree hact =>
      rw [Function.update_self]
      exact ⟨calls, hon.move (h.silent _ _ _ _ _ (hon.along_free hfree) hact)⟩
  | @emit output next hfree hact =>
      rw [Function.update_self]
      exact ⟨calls, hon.move (h.emit _ _ _ _ _ _ (hon.along_free hfree) hact)⟩
  | @enter source tensor resume hfree hact =>
      rw [Function.update_self]
      have halong := hon.along_free hfree
      obtain ⟨sent, hwithin, hshape, hown, hsource, -⟩ := h.call _ _ _ _ _ _ _ halong hact
      refine ⟨calls ++ [(source, sent)], hwithin, ?_, ?_, ?_⟩
      · exact List.rel_append hon.tallies
          (List.Forall₂.cons ⟨rfl, hshape.symm, hown⟩ List.Forall₂.nil)
      · show along q (List.dropLast (calls ++ [(source, sent)])) _ _
        rw [List.dropLast_concat]
        exact halong
      · intro _
        refine ⟨source, tensor, resume, sent, hact, hsource, hshape, ?_⟩
        show _ = List.dropLast (calls ++ [(source, sent)]) ++ _
        rw [List.dropLast_concat]
  | @complete q' source tensor sent resume hwait hact hname hget _ =>
      rw [Function.update_self]
      obtain ⟨source', tensor', resume', sent', hact', -, -, hcalls, hlength, hscript⟩ :=
        hon.open_call hwait
      rw [hact] at hact'
      obtain ⟨rfl, rfl, rfl⟩ := Act.call.inj hact'
      obtain ⟨sent'', hwithin, -, -, -, hnext⟩ := h.call _ _ _ _ _ _ _ hon.along hact
      -- the source has sent what the script says
      obtain ⟨calls', hon'⟩ := hs q'
      have hsent := hon'.sent (hname ▸ hget)
      rw [hscript, hname] at hsent
      obtain rfl : sent' = sent := by simpa using hsent
      have hlast := prefix_last hwithin
      rw [hlength, Nat.add_sub_cancel, hlast] at hscript
      obtain rfl : sent'' = sent' := by simpa using hscript
      rw [← hcalls] at hnext
      exact ⟨calls, hon.move hnext⟩

/-! ## §5. Every run. -/

theorem onScript_start (h : P.Follows script outputs along) (hinit : P.system.init s) :
    P.AllOnScript script along s := by
  intro q
  rw [hinit q]
  refine ⟨[], List.nil_prefix, List.Forall₂.nil, h.start q, ?_⟩
  intro hwait
  simp at hwait

/-- **Run lemma**. -/
theorem onScript_reachable (h : P.Follows script outputs along) :
    ∀ s, P.system.Reachable s → P.AllOnScript script along s :=
  System.Reachable.invariant (fun _ hinit => h.onScript_start hinit)
    (fun _ _ _ _ hs hstep => h.onScript_step hs hstep)

/-- **Every party enters the calls of the script, in its order.** -/
theorem entered (h : P.Follows script outputs along) (hs : P.system.Reachable s) (r : ι) :
    ∃ calls, calls <+: script ∧ P.Tallies r (s r).entered calls := by
  obtain ⟨calls, hon⟩ := h.onScript_reachable s hs r
  exact ⟨calls, hon.within, hon.tallies⟩

/-- **Every party emits the outputs, in their order.** -/
theorem emitted (h : P.Follows script outputs along) (hs : P.system.Reachable s) (r : ι) :
    (s r).emitted <+: outputs := by
  obtain ⟨calls, hon⟩ := h.onScript_reachable s hs r
  exact (h.within _ _ _ _ hon.along).2

/-- **A party that has halted has entered and emitted all of it.** -/
theorem halted (h : P.Follows script outputs along) (hs : P.system.Reachable s) {r : ι}
    (hhalt : P.act r (s r).state = .halt) :
    P.Tallies r (s r).entered script ∧ (s r).emitted = outputs := by
  obtain ⟨calls, hon⟩ := h.onScript_reachable s hs r
  obtain ⟨hcalls, hout⟩ := h.halt _ _ _ _ hon.along hhalt
  cases hwait : (s r).waiting with
  | false =>
      rw [closed_free hwait] at hcalls
      exact ⟨hcalls ▸ hon.tallies, hout⟩
  | true =>
      obtain ⟨_, _, _, _, hact, -⟩ := hon.open_call hwait
      rw [hhalt] at hact
      simp at hact

/-- **Nobody gets stuck**: as long as some party has not halted, some party
can move, also where every call is a rendezvous. -/
theorem advance [Finite ι] (h : P.Follows script outputs along) (hs : P.system.Reachable s)
    (hbusy : ∃ r, P.act r (s r).state ≠ .halt) :
    ∃ r t, (P.system.restrict Rendezvous).step s r t := by
  have hon := h.onScript_reachable s hs
  by_cases hfree : ∃ r, P.act r (s r).state ≠ .halt ∧ (s r).waiting = false
  case pos =>
    obtain ⟨r, hact, hfree⟩ := hfree
    have hmeet : Rendezvous s r := by
      intro hwait
      rw [hfree] at hwait
      simp at hwait
    cases hnext : P.act r (s r).state with
    | silent next => exact ⟨r, _, hmeet, .silent hfree hnext⟩
    | emit output next => exact ⟨r, _, hmeet, .emit hfree hnext⟩
    | call source tensor resume => exact ⟨r, _, hmeet, .enter hfree hnext⟩
    | halt => exact absurd hnext hact
  case neg =>
    -- all that have not halted wait: one that has entered the fewest calls can go on
    have hwaits : ∀ q, P.act q (s q).state ≠ .halt → (s q).waiting = true := by
      intro q hq
      by_contra hw
      exact hfree ⟨q, hq, by simpa using hw⟩
    obtain ⟨r₀, hr₀⟩ := hbusy
    have : Nonempty ι := ⟨r₀⟩
    obtain ⟨r, hfewest⟩ := Finite.exists_min (fun q => (s q).entered.length)
    have hlength : ∀ q, (s q).entered.length ≤ script.length := by
      intro q
      obtain ⟨calls, hq⟩ := hon q
      rw [hq.tallies.length]
      exact hq.within.length_le
    have hfull : ∀ q, P.act q (s q).state = .halt → (s q).entered.length = script.length :=
      fun q hq => (h.halted hs hq).1.length
    -- it has not halted: the others would have entered as many, and be waiting in the last
    have hwait : ∃ r, (s r).waiting = true ∧ ∀ q, (s r).entered.length ≤ (s q).entered.length := by
      by_cases hhalt : P.act r (s r).state = .halt
      · refine ⟨r₀, hwaits r₀ hr₀, fun q => ?_⟩
        have h₁ := hfull r hhalt
        have h₂ := hfewest q
        have h₃ := hlength r₀
        omega
      · exact ⟨r, hwaits r hhalt, hfewest⟩
    obtain ⟨r, hwait, hfewest⟩ := hwait
    obtain ⟨calls, honr⟩ := hon r
    obtain ⟨source, tensor, resume, sent, hact, ⟨q, hq⟩, hshape, -, hlength, hscript⟩ :=
      honr.open_call hwait
    obtain ⟨calls', honq⟩ := hon q
    -- what the source has entered there
    have hlt : (s r).entered.length - 1 < (s q).entered.length := by
      have := hfewest q
      omega
    have hlt' : (s r).entered.length - 1 < calls'.length := honq.tallies.length ▸ hlt
    have hpair := honq.tallies.get hlt hlt'
    rw [List.get_eq_getElem, List.get_eq_getElem] at hpair
    have hscript' := prefix_get honq.within (List.getElem?_eq_getElem hlt')
    rw [hscript] at hscript'
    rw [← Option.some.inj hscript'] at hpair
    obtain ⟨hname, hsh, -⟩ := hpair
    have hget : (s q).entered[(s r).entered.length - 1]?
        = some (source, ((s q).entered[(s r).entered.length - 1]).2) :=
      List.getElem?_eq_some_iff.mpr ⟨hlt, Prod.ext hname rfl⟩
    exact ⟨r, _, fun _ => hfewest, .complete hwait hact hq hget (hsh.trans hshape)⟩

end Follows

/-! ## §6. Runs that end. -/

/-- What a party alone, given what the script says, has still to do. -/
structure Descends (P : Collective ι γ μ ς ω σ) (script : List (γ × μ))
    (along : ι → List (γ × μ) → List ω → σ → Prop) (todo : ι → σ → Nat) : Prop where
  silent : ∀ r calls out s next, along r calls out s → P.act r s = .silent next →
    todo r next < todo r s
  emit : ∀ r calls out s output next, along r calls out s → P.act r s = .emit output next →
    todo r next < todo r s
  call : ∀ r calls out s source tensor resume sent, along r calls out s →
    P.act r s = .call source tensor resume → calls ++ [(source, sent)] <+: script →
    todo r (resume sent) < todo r s

/-- A call counts for two: to enter it, and to complete it. -/
def toGo (todo : ι → σ → Nat) (r : ι) (p : Party γ μ ω σ) : Nat :=
  2 * todo r p.state + (if p.waiting then 0 else 1)

theorem toGo_step {todo : ι → σ → Nat}
    (hless : P.Descends script along todo) (hs : P.AllOnScript script along s)
    (hstep : P.Step s r t) : toGo todo r (t r) < toGo todo r (s r) := by
  obtain ⟨calls, hon⟩ := hs r
  have halong := hon.along
  unfold toGo
  cases hstep with
  | silent hfree hact =>
      have := hless.silent _ _ _ _ _ halong hact
      simp only [Function.update_self, hfree]
      omega
  | emit hfree hact =>
      have := hless.emit _ _ _ _ _ _ halong hact
      simp only [Function.update_self, hfree]
      omega
  | enter hfree hact =>
      simp only [Function.update_self, hfree]
      simp
  | @complete q source tensor sent resume hwait hact hname hget _ =>
      obtain ⟨calls', hon'⟩ := hs q
      have hsent := hon'.sent (hname ▸ hget)
      obtain ⟨_, _, _, sent', hact', -, -, hcalls, -, hscript⟩ := hon.open_call hwait
      rw [hact] at hact'
      obtain ⟨rfl, rfl, rfl⟩ := Act.call.inj hact'
      rw [hscript, hname] at hsent
      obtain rfl : sent' = sent := by simpa using hsent
      have := hless.call _ _ _ _ _ _ _ _ halong hact (hcalls ▸ hon.within)
      simp only [Function.update_self, hwait]
      simp
      omega

/-- **No run goes on for ever.** -/
theorem Follows.bounded [Fintype ι] {todo : ι → σ → Nat} (h : P.Follows script outputs along)
    (hless : P.Descends script along todo) (hinit : P.system.init s) {count : Nat}
    (hsteps : P.system.Steps (fun _ => True) count s t) :
    count ≤ ∑ r, toGo todo r (s r) := by
  have hdescend : ∀ (s : ι → Party γ μ ω σ) (r : ι) (t : ι → Party γ μ ω σ),
      P.AllOnScript script along s → True → P.system.step s r t →
      ∑ q, toGo todo q (t q) < ∑ q, toGo todo q (s q) := by
    intro s r t hs _ hstep
    have hless' := toGo_step hless hs hstep
    have hothers : ∀ q, q ≠ r → t q = s q := by
      intro q hq
      cases hstep <;> exact Function.update_of_ne hq _ _
    apply Finset.sum_lt_sum
    · intro q _
      by_cases hq : q = r
      · subst hq
        omega
      · rw [hothers q hq]
    · exact ⟨r, Finset.mem_univ r, hless'⟩
  have hbound := System.Steps.length_le (fun _ _ _ hs hstep => h.onScript_step hs hstep) hdescend
    count s t (h.onScript_start hinit) hsteps
  omega

end Collective

end ModelStreamer.Lib
