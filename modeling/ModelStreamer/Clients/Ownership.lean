/-
  ModelStreamer.Clients.Ownership
  ───────────────────────────────
  **WHO OWNS A CLIENT** (`common/client_mgr/client_mgr.h`).

  The pool owns its clients; the users hold pointers.  `pop` takes a client
  out of the unused ones before it verifies it, and builds a new one between
  its two locks.

    • `popLoop_spec` — what the loop of `pop` takes, and what it destroys,
    • `Inv` — the owned clients are, one by one, the unused, the returned, the
      held and the lost ones; its steps by action,
    • `client_ownership` — so no user holds a destroyed client, and none is
      lost unless a verification throws,
    • `thrown_client_lost` — and where one does, the client is lost.
-/
import Mathlib.Data.List.Sort
import ModelStreamer.Lib.DistinctKeys
import ModelStreamer.ObjectStorage.Client
import ModelStreamer.Clients.Credentials

namespace ModelStreamer.Clients

open ModelStreamer.Lib ModelStreamer.ObjectStorage

/-! ## §1. The loop of `pop`. -/

/-- A client, and which one it is of all that were ever built. -/
structure Made (T : Type) where
  serial : Nat
  object : T
  deriving DecidableEq, Repr

/-- How the loop ends. -/
inductive Taken (T : Type) where
  | reuse (ptr : Nat) (client : Made T)
  /-- No client is left, and a new one is built. -/
  | create
  | throws (ptr : Nat)
  deriving DecidableEq, Repr

/-- The client it took from the unused ones. -/
def Taken.ptrs {T : Type} : Taken T → List Nat
  | .reuse ptr _ => [ptr]
  | .create => []
  | .throws ptr => [ptr]

section Loop

variable {T : Type}

/-- The `while` loop of `pop`, where a verification may throw. -/
def popLoop (verify : T → Option Bool) :
    List Nat → List (Nat × Made T) → Taken T × List Nat × List (Nat × Made T)
  | [], clients => (.create, [], clients)
  | ptr :: unused, clients =>
      match find clients ptr with
      -- there is no such client: what happens then is not defined
      | none => (.throws ptr, unused, clients)
      | some client =>
          match verify client.object with
          -- it has left the unused ones already, and nothing puts it back
          | none => (.throws ptr, unused, clients)
          | some true => (.reuse ptr client, unused, clients)
          -- release the stale client
          | some false => popLoop verify unused (remove clients ptr)

/-- The condition: the first client that does not fail its verification
makes it throw. -/
def Throws (verify : T → Option Bool) : List Nat → List (Nat × Made T) → Prop
  | [], _ => False
  | ptr :: unused, clients =>
      ∃ client, find clients ptr = some client ∧
        (verify client.object = none ∨
          verify client.object = some false ∧ Throws verify unused clients)

/-- The first client verifies, and the loop looks no further. -/
theorem not_throws_of_verified {verify : T → Option Bool} {ptr : Nat} {unused : List Nat}
    {clients : List (Nat × Made T)} {client : Made T} (hclient : find clients ptr = some client)
    (hverify : verify client.object = some true) : ¬ Throws verify (ptr :: unused) clients := by
  rintro ⟨client', hclient', hthrows⟩
  obtain rfl := Option.some.inj (hclient.symm.trans hclient')
  rw [hverify] at hthrows
  simp at hthrows

/-- **The loop of `pop`** takes at most one client from the unused ones,
destroys those before it, and leaves all others. -/
theorem popLoop_spec (verify : T → Option Bool) (unused rest : List Nat)
    (clients : List (Nat × Made T)) (hkeys : (clients.map Prod.fst).Perm (unused ++ rest))
    (hnodup : (clients.map Prod.fst).Nodup) :
    ((popLoop verify unused clients).2.2.map Prod.fst).Perm
        ((popLoop verify unused clients).1.ptrs ++ ((popLoop verify unused clients).2.1 ++ rest)) ∧
      (popLoop verify unused clients).2.2.Sublist clients ∧
      (∀ ptr client, (popLoop verify unused clients).1 = .reuse ptr client →
        find (popLoop verify unused clients).2.2 ptr = some client ∧
          verify client.object = some true) := by
  induction unused generalizing clients with
  | nil => exact ⟨hkeys, List.Sublist.refl _, fun ptr client h => by simp [popLoop] at h⟩
  | cons ptr unused ih =>
      unfold popLoop
      cases hfind : find clients ptr with
      | none => exact ⟨hkeys, List.Sublist.refl _, fun p c h => by simp at h⟩
      | some client =>
          dsimp only
          cases hverify : verify client.object with
          | none => exact ⟨hkeys, List.Sublist.refl _, fun p c h => by simp at h⟩
          | some verified =>
              cases verified with
              | true =>
                  refine ⟨hkeys, List.Sublist.refl _, fun p c h => ?_⟩
                  simp only [Taken.reuse.injEq] at h
                  obtain ⟨rfl, rfl⟩ := h
                  exact ⟨hfind, hverify⟩
              | false =>
                  -- the stale client goes, and the loop is that of the others
                  have hsub := remove_sublist clients ptr
                  obtain ⟨hperm, hsub', hreuse⟩ := ih (remove clients ptr)
                    (remove_perm hkeys hnodup) (keys_nodup hsub hnodup)
                  exact ⟨hperm, hsub'.trans hsub, hreuse⟩

theorem throws_congr (verify : T → Option Bool) (unused : List Nat)
    {clients clients' : List (Nat × Made T)}
    (hfind : ∀ ptr ∈ unused, find clients ptr = find clients' ptr) :
    Throws verify unused clients ↔ Throws verify unused clients' := by
  induction unused with
  | nil => exact Iff.rfl
  | cons ptr unused ih =>
      rw [List.forall_mem_cons] at hfind
      unfold Throws
      rw [hfind.1, ih hfind.2]

/-- **When it throws.** -/
theorem popLoop_throws (verify : T → Option Bool) (unused rest : List Nat)
    (clients : List (Nat × Made T)) (hkeys : (clients.map Prod.fst).Perm (unused ++ rest))
    (hnodup : (clients.map Prod.fst).Nodup) :
    (∃ ptr, (popLoop verify unused clients).1 = .throws ptr) ↔ Throws verify unused clients := by
  induction unused generalizing clients with
  | nil => simp [popLoop, Throws]
  | cons ptr unused ih =>
      have howned : ptr ∈ clients.map Prod.fst := hkeys.mem_iff.mpr (by simp)
      obtain ⟨e, he, rfl⟩ := List.mem_map.mp howned
      have hfind := find_of_mem hnodup he
      unfold popLoop Throws
      rw [hfind]
      cases hverify : verify e.2.object with
      | none => simp [hverify]
      | some verified =>
          cases verified with
          | true => simp [hverify]
          | false =>
              have hnot : e.1 ∉ unused := by
                have hall := hkeys.nodup_iff.mp hnodup
                exact fun h => (List.nodup_cons.mp hall).1 (List.mem_append_left _ h)
              have hrest := ih (remove clients e.1) (remove_perm hkeys hnodup)
                (keys_nodup (remove_sublist clients e.1) hnodup)
              have hsame := throws_congr verify unused (fun ptr hptr => by
                show find (remove clients e.1) ptr = find clients ptr
                rw [find_remove, if_neg]
                rintro rfl
                exact hnot hptr)
              simp [hverify, hrest, hsame]

/-- **Where no verification throws**, the loop is the one of a verification
that returns. -/
theorem popLoop_eq {Config : Type} (verify : T → Option Bool) (verifies : Made T → Config → Bool)
    (config : Config) (hverify : ∀ client, verify client.object = some (verifies client config))
    (unused rest : List Nat) (clients : List (Nat × Made T))
    (hkeys : (clients.map Prod.fst).Perm (unused ++ rest))
    (hnodup : (clients.map Prod.fst).Nodup) :
    (popLoop verify unused clients).1.ptrs = (takeUnused verifies config unused clients).1.toList ∧
      (popLoop verify unused clients).2 = (takeUnused verifies config unused clients).2 := by
  induction unused generalizing clients with
  | nil => exact ⟨rfl, rfl⟩
  | cons ptr unused ih =>
      have howned : ptr ∈ clients.map Prod.fst := hkeys.mem_iff.mpr (by simp)
      obtain ⟨e, he, rfl⟩ := List.mem_map.mp howned
      unfold popLoop takeUnused
      rw [find_of_mem hnodup he, Option.any_some]
      dsimp only
      rw [hverify]
      cases verifies e.2 config with
      | true => exact ⟨rfl, rfl⟩
      | false =>
          exact ih (remove clients e.1) (remove_perm hkeys hnodup)
            (keys_nodup (remove_sublist clients e.1) hnodup)

end Loop

/-! ## §2. Users and their calls. -/

/-- A client on its way to a user, or with it: what `pop` was called with, and
the client as it was built or verified. -/
structure Given (ι Config T : Type) where
  user : ι
  config : Config
  ptr : Nat
  client : Made T

/-- The pool, the calls of `pop` in progress and what the users hold.
`creating` are the calls between the two locks, `built` those whose client is
not in the pool yet, and `returning` those that left their last lock.
History: `lost` are the clients whose verification threw, `destroyed` those
that were destroyed, and `next` counts all that were built. -/
structure Pool (ι Config T : Type) where
  mgr : ClientMgr (Made T)
  creating : List (ι × Config)
  built : List (Given ι Config T)
  returning : List (Given ι Config T)
  held : List (Given ι Config T)
  lost : List Nat
  destroyed : List Nat
  next : Nat

/-- A fresh process. -/
def Pool.new {ι Config T : Type} : Pool ι Config T := ⟨⟨[], []⟩, [], [], [], [], [], [], 0⟩

inductive Action (World ι Config : Type) where
  /-- `pop`, up to where it makes a client. -/
  | pop (w : World) (user : ι) (config : Config)
  /-- The constructor, and its exception. -/
  | construct (w : World) (user : ι) (config : Config)
  | constructThrows (w : World) (user : ι) (config : Config)
  /-- The second lock. -/
  | add (user : ι) (ptr : Nat)
  /-- `pop` returns. -/
  | receive (user : ι) (ptr : Nat)
  | push (user : ι) (ptr : Nat)
  /-- A user works with a client it holds. -/
  | use (user : ι) (ptr : Nat)
  | stop
  | clear

section Pool

variable {World ι Config T : Type}

/-- Every client changes, and stays the one it is. -/
def touch (f : Nat → T → T) (clients : List (Nat × Made T)) : List (Nat × Made T) :=
  clients.map (fun e => (e.1, ⟨e.2.serial, f e.1 e.2.object⟩))

/-- The pool becomes `mgr`; the clients that are gone are destroyed. -/
def Pool.settle (s : Pool ι Config T) (mgr : ClientMgr (Made T)) : Pool ι Config T :=
  { s with
    mgr := mgr
    destroyed := (gone s.mgr.clients mgr.clients).map (fun e => e.2.serial) ++ s.destroyed }

-- the constructor and `verify_credentials`, which may throw, and which read
-- more than they are given; `stop` of a client
variable (make : World → Config → Option T) (verify : World → T → Config → Option Bool)
variable (stop : T → T)

/-- The end of the first lock of `pop`. -/
def Pool.leave (s : Pool ι Config T) (user : ι) (config : Config) : Taken T → Pool ι Config T
  | .reuse ptr client => { s with returning := ⟨user, config, ptr, client⟩ :: s.returning }
  | .create => { s with creating := (user, config) :: s.creating }
  | .throws ptr => { s with lost := ptr :: s.lost }

/-- `pop`, up to where it makes a client. -/
def Pool.pop (s : Pool ι Config T) (w : World) (user : ι) (config : Config) : Pool ι Config T :=
  let (taken, unused, clients) :=
    popLoop (fun client => verify w client config) s.mgr.unused s.mgr.clients
  (s.settle ⟨clients, unused⟩).leave user config taken

/-- One step of a user. -/
inductive PoolStep : Pool ι Config T → Action World ι Config → Pool ι Config T → Prop
  | pop (s : Pool ι Config T) (w : World) (user : ι) (config : Config) :
      PoolStep s (.pop w user config) (s.pop verify w user config)
  /-- The new client is at an address where there is none. -/
  | construct {s : Pool ι Config T} {before after : List (ι × Config)} {w : World} {user : ι}
      {config : Config} {client : T} (ptr : Nat)
      (hcreating : s.creating = before ++ (user, config) :: after)
      (hmake : make w config = some client) (howned : ptr ∉ s.mgr.clients.map Prod.fst)
      (hbuilt : ptr ∉ s.built.map Given.ptr) :
      PoolStep s (.construct w user config)
        { s with
          creating := before ++ after
          built := ⟨user, config, ptr, ⟨s.next, client⟩⟩ :: s.built
          next := s.next + 1 }
  | constructThrows {s : Pool ι Config T} {before after : List (ι × Config)} {w : World} {user : ι}
      {config : Config} (hcreating : s.creating = before ++ (user, config) :: after)
      (hmake : make w config = none) :
      PoolStep s (.constructThrows w user config) { s with creating := before ++ after }
  | add {s : Pool ι Config T} {before after : List (Given ι Config T)} {g : Given ι Config T}
      (hbuilt : s.built = before ++ g :: after) :
      PoolStep s (.add g.user g.ptr)
        { s with
          mgr := s.mgr.add g.ptr g.client
          built := before ++ after
          returning := g :: s.returning }
  | receive {s : Pool ι Config T} {before after : List (Given ι Config T)} {g : Given ι Config T}
      (hreturning : s.returning = before ++ g :: after) :
      PoolStep s (.receive g.user g.ptr)
        { s with returning := before ++ after, held := g :: s.held }
  | push {s : Pool ι Config T} {before after : List (Given ι Config T)} {g : Given ι Config T}
      (hheld : s.held = before ++ g :: after) :
      PoolStep s (.push g.user g.ptr)
        { s with mgr := s.mgr.push g.ptr, held := before ++ after }
  | use {s : Pool ι Config T} {g : Given ι Config T} (f : T → T) (hheld : g ∈ s.held) :
      PoolStep s (.use g.user g.ptr)
        { s with
          mgr := { s.mgr with
            clients := touch (fun ptr => if ptr = g.ptr then f else id) s.mgr.clients } }
  | stop (s : Pool ι Config T) :
      PoolStep s .stop
        { s with mgr := s.mgr.stop (fun client => ⟨client.serial, stop client.object⟩) }
  | clear (s : Pool ι Config T) : PoolStep s .clear (s.settle s.mgr.clear)

/-- The users of one pool. -/
def clientMgr : System (Pool ι Config T) (Action World ι Config) where
  init s := s = .new
  step s a t := PoolStep make verify stop s a t

/-! ## §3. The invariant. -/

/-- The clients that were built and not handed out elsewhere, by serial
number: those of the pool, those on their way to it, and the destroyed ones. -/
def Pool.serials (s : Pool ι Config T) : List Nat :=
  s.mgr.clients.map (fun e => e.2.serial) ++
    (s.built.map (fun g => g.client.serial) ++ s.destroyed)

/-- The client was built from the configuration, or verified against it. -/
def Provenance (config : Config) (client : T) : Prop :=
  (∃ w, make w config = some client) ∨ ∃ w, verify w client config = some true

/-- **The owned clients**, one by one: the unused ones, those `pop` is about
to return, those the users hold, and the lost ones. -/
structure Inv (s : Pool ι Config T) : Prop where
  keys : (s.mgr.clients.map Prod.fst).Perm
    (s.mgr.unused ++ (s.returning.map Given.ptr ++ (s.held.map Given.ptr ++ s.lost)))
  addresses : (s.mgr.clients.map Prod.fst ++ s.built.map Given.ptr).Nodup
  serials : s.serials.Nodup
  serials_lt : ∀ n ∈ s.serials, n < s.next
  given : ∀ g ∈ s.returning ++ s.held,
    ∃ client, find s.mgr.clients g.ptr = some client ∧ client.serial = g.client.serial
  provenance : ∀ g ∈ s.built ++ (s.returning ++ s.held),
    Provenance make verify g.config g.client.object

variable {make verify stop}

theorem Inv.nodup {s : Pool ι Config T} (h : Inv make verify s) :
    (s.mgr.clients.map Prod.fst).Nodup :=
  h.addresses.of_append_left

theorem Inv.new : Inv make verify (Pool.new : Pool ι Config T) where
  keys := List.Perm.refl _
  addresses := List.nodup_nil
  serials := List.nodup_nil
  serials_lt := fun _ hn => absurd hn List.not_mem_nil
  given := fun _ hg => absurd hg List.not_mem_nil
  provenance := fun _ hg => absurd hg List.not_mem_nil

theorem settle_serials {s : Pool ι Config T} (h : Inv make verify s) {mgr : ClientMgr (Made T)}
    (hsub : mgr.clients.Sublist s.mgr.clients) : s.serials.Perm (s.settle mgr).serials := by
  have hgone := (gone_perm hsub h.nodup).map (fun e => e.2.serial)
  rw [List.map_append] at hgone
  unfold Pool.serials Pool.settle
  dsimp only
  rw [List.perm_iff_count] at hgone ⊢
  intro n
  have := hgone n
  simp only [List.count_append] at this ⊢
  omega

/-- **Clients are destroyed**: of what is given, nothing that is still owned
changes. -/
theorem Inv.settle {s t : Pool ι Config T} (h : Inv make verify s) {mgr : ClientMgr (Made T)}
    (hsub : mgr.clients.Sublist s.mgr.clients) (hmgr : t.mgr = mgr)
    (hdestroyed : t.destroyed = (s.settle mgr).destroyed) (hbuilt : t.built = s.built)
    (hnext : t.next = s.next)
    (hkeys : (mgr.clients.map Prod.fst).Perm
      (mgr.unused ++ (t.returning.map Given.ptr ++ (t.held.map Given.ptr ++ t.lost))))
    (hgiven : ∀ g ∈ t.returning ++ t.held, g ∈ s.returning ++ s.held ∨
      (find mgr.clients g.ptr = some g.client ∧
        Provenance make verify g.config g.client.object)) : Inv make verify t := by
  have hserials : t.serials = (s.settle mgr).serials := by
    unfold Pool.serials
    rw [hmgr, hdestroyed, hbuilt]
    rfl
  have hperm := settle_serials h hsub
  constructor
  case keys =>
    rw [hmgr]
    exact hkeys
  case addresses =>
    rw [hmgr, hbuilt]
    exact ((hsub.map Prod.fst).append_right _).nodup h.addresses
  case serials =>
    rw [hserials]
    exact hperm.nodup_iff.mp h.serials
  case serials_lt =>
    intro n hn
    rw [hserials] at hn
    rw [hnext]
    exact h.serials_lt n (hperm.mem_iff.mpr hn)
  case given =>
    intro g hg
    rw [hmgr]
    rcases hgiven g hg with hold | ⟨hfind, -⟩
    · obtain ⟨client, hclient, hserial⟩ := h.given g hold
      -- its address is still a key, so the entry is the old one
      have howned : g.ptr ∈ mgr.clients.map Prod.fst := by
        rw [hkeys.mem_iff]
        rcases List.mem_append.mp hg with hret | hheld
        · exact List.mem_append_right _
            (List.mem_append_left _ (List.mem_map_of_mem hret))
        · exact List.mem_append_right _
            (List.mem_append_right _ (List.mem_append_left _ (List.mem_map_of_mem hheld)))
      obtain ⟨e, he, hkey⟩ := List.mem_map.mp howned
      have hfind := find_of_mem (keys_nodup hsub h.nodup) he
      rw [hkey] at hfind
      have hsame := find_of_sublist hsub h.nodup hfind
      rw [hclient] at hsame
      exact ⟨e.2, hfind, by rw [← Option.some.inj hsame]; exact hserial⟩
    · exact ⟨g.client, hfind, rfl⟩
  case provenance =>
    intro g hg
    rw [hbuilt] at hg
    rcases List.mem_append.mp hg with hb | hg
    · exact h.provenance g (List.mem_append_left _ hb)
    · rcases hgiven g hg with hold | ⟨-, hprovenance⟩
      · exact h.provenance g (List.mem_append_right _ hold)
      · exact hprovenance

theorem Inv.pop {s : Pool ι Config T} (h : Inv make verify s) (w : World) (user : ι)
    (config : Config) : Inv make verify (s.pop verify w user config) := by
  obtain ⟨hkeys, hsub, hreuse⟩ := popLoop_spec (fun client => verify w client config) s.mgr.unused
    _ s.mgr.clients h.keys h.nodup
  obtain ⟨taken, unused, clients, hloop⟩ : ∃ taken unused clients,
      popLoop (fun client => verify w client config) s.mgr.unused s.mgr.clients
        = (taken, unused, clients) := ⟨_, _, _, rfl⟩
  have hpop : s.pop verify w user config
      = (s.settle ⟨clients, unused⟩).leave user config taken := by
    unfold Pool.pop
    rw [hloop]
  rw [hloop] at hkeys hsub hreuse
  rw [hpop]
  cases taken with
  | reuse ptr client =>
      obtain ⟨hfind, hverify⟩ := hreuse ptr client rfl
      refine h.settle hsub rfl rfl rfl rfl (hkeys.trans ?_) (fun g hg => ?_)
      · rw [List.perm_iff_count]
        intro p
        simp only [Taken.ptrs, Pool.settle, Pool.leave, List.map_cons, List.count_append,
          List.count_cons, List.count_nil]
        omega
      · rcases List.mem_cons.mp hg with rfl | hold
        · exact Or.inr ⟨hfind, Or.inr ⟨w, hverify⟩⟩
        · exact Or.inl hold
  | create => exact h.settle hsub rfl rfl rfl rfl hkeys (fun g hg => Or.inl hg)
  | throws ptr =>
      refine h.settle hsub rfl rfl rfl rfl (hkeys.trans ?_) (fun g hg => Or.inl hg)
      rw [List.perm_iff_count]
      intro p
      simp only [Taken.ptrs, Pool.settle, Pool.leave, List.count_append, List.count_cons,
        List.count_nil]
      omega

theorem Inv.construct {s : Pool ι Config T} (h : Inv make verify s) {w : World} {user : ι}
    {config : Config} {client : T} {ptr : Nat} (hmake : make w config = some client)
    (howned : ptr ∉ s.mgr.clients.map Prod.fst) (hbuilt : ptr ∉ s.built.map Given.ptr)
    (creating : List (ι × Config)) :
    Inv make verify
      { s with
        creating := creating
        built := ⟨user, config, ptr, ⟨s.next, client⟩⟩ :: s.built
        next := s.next + 1 } where
  keys := h.keys
  addresses := by
    show (s.mgr.clients.map Prod.fst ++ ptr :: s.built.map Given.ptr).Nodup
    rw [List.perm_middle.nodup_iff, List.nodup_cons, List.mem_append]
    exact ⟨fun hor => hor.elim howned hbuilt, h.addresses⟩
  serials := by
    show (s.mgr.clients.map (fun e => e.2.serial) ++
      s.next :: (s.built.map (fun g => g.client.serial) ++ s.destroyed)).Nodup
    rw [List.perm_middle.nodup_iff, List.nodup_cons]
    refine ⟨fun hmem => ?_, h.serials⟩
    have := h.serials_lt s.next hmem
    omega
  serials_lt := by
    intro n hn
    have hor : n = s.next ∨ n ∈ s.serials :=
      List.mem_cons.mp (List.perm_middle.mem_iff.mp hn)
    show n < s.next + 1
    rcases hor with rfl | hold
    · omega
    · have := h.serials_lt n hold
      omega
  given := h.given
  provenance := by
    intro g hg
    rcases List.mem_cons.mp hg with rfl | hg
    · exact Or.inl ⟨w, hmake⟩
    · exact h.provenance g hg

theorem Inv.constructThrows {s : Pool ι Config T} (h : Inv make verify s)
    (creating : List (ι × Config)) : Inv make verify { s with creating := creating } :=
  ⟨h.keys, h.addresses, h.serials, h.serials_lt, h.given, h.provenance⟩

theorem Inv.add {s : Pool ι Config T} (h : Inv make verify s) {g : Given ι Config T}
    {before after : List (Given ι Config T)} (hbuilt : s.built = before ++ g :: after) :
    Inv make verify
      { s with
        mgr := s.mgr.add g.ptr g.client
        built := before ++ after
        returning := g :: s.returning } := by
  have hnew : g.ptr ∉ s.mgr.clients.map Prod.fst := by
    have hdisjoint := List.disjoint_of_nodup_append h.addresses
    rw [hbuilt] at hdisjoint
    exact fun hmem => hdisjoint hmem (List.mem_map_of_mem (by simp))
  have hserials : s.serials.Perm
      ((g.client.serial :: s.mgr.clients.map (fun e => e.2.serial)) ++
        ((before ++ after).map (fun g => g.client.serial) ++ s.destroyed)) := by
    unfold Pool.serials
    rw [hbuilt, List.perm_iff_count]
    intro n
    simp only [List.map_append, List.map_cons, List.count_append, List.count_cons]
    omega
  constructor
  case keys =>
    show (g.ptr :: s.mgr.clients.map Prod.fst).Perm
      (s.mgr.unused ++ (g.ptr :: (s.returning.map Given.ptr ++ _)))
    exact (h.keys.cons g.ptr).trans List.perm_middle.symm
  case addresses =>
    have haddresses := h.addresses
    rw [hbuilt] at haddresses
    refine (List.Perm.nodup_iff ?_).mp haddresses
    show (s.mgr.clients.map Prod.fst ++ (before ++ g :: after).map Given.ptr).Perm
      (g.ptr :: s.mgr.clients.map Prod.fst ++ (before ++ after).map Given.ptr)
    rw [List.perm_iff_count]
    intro p
    simp only [List.map_append, List.map_cons, List.count_append, List.count_cons]
    omega
  case serials => exact hserials.nodup_iff.mp h.serials
  case serials_lt => exact fun n hn => h.serials_lt n (hserials.mem_iff.mpr hn)
  case given =>
    intro g' hg'
    show ∃ client, find ((g.ptr, g.client) :: s.mgr.clients) g'.ptr = some client ∧ _
    rw [find_cons]
    rcases List.mem_cons.mp hg' with rfl | hold
    · exact ⟨g'.client, if_pos rfl, rfl⟩
    · obtain ⟨client, hclient, hserial⟩ := h.given g' hold
      refine ⟨client, ?_, hserial⟩
      rw [if_neg, hclient]
      intro heq
      apply hnew
      rw [heq]
      exact List.mem_map_of_mem (mem_of_find hclient)
  case provenance =>
    intro g' hg'
    apply h.provenance g'
    rw [hbuilt]
    simp only [List.mem_append, List.mem_cons] at hg' ⊢
    tauto

theorem Inv.receive {s : Pool ι Config T} (h : Inv make verify s) {g : Given ι Config T}
    {before after : List (Given ι Config T)} (hreturning : s.returning = before ++ g :: after) :
    Inv make verify { s with returning := before ++ after, held := g :: s.held } := by
  have hsame : ∀ g', g' ∈ before ++ after ++ g :: s.held ↔ g' ∈ s.returning ++ s.held := by
    intro g'
    rw [hreturning]
    simp only [List.mem_append, List.mem_cons]
    tauto
  constructor
  case keys =>
    refine h.keys.trans ?_
    rw [hreturning, List.perm_iff_count]
    intro p
    simp only [List.map_append, List.map_cons, List.count_append, List.count_cons]
    omega
  case addresses => exact h.addresses
  case serials => exact h.serials
  case serials_lt => exact h.serials_lt
  case given => exact fun g' hg' => h.given g' ((hsame g').mp hg')
  case provenance =>
    intro g' hg'
    apply h.provenance g'
    rcases List.mem_append.mp hg' with hb | hg'
    · exact List.mem_append_left _ hb
    · exact List.mem_append_right _ ((hsame g').mp hg')

theorem Inv.push {s : Pool ι Config T} (h : Inv make verify s) {g : Given ι Config T}
    {before after : List (Given ι Config T)} (hheld : s.held = before ++ g :: after) :
    Inv make verify { s with mgr := s.mgr.push g.ptr, held := before ++ after } := by
  have hnew : g.ptr ∉ s.mgr.unused := by
    have hall := h.keys.nodup_iff.mp h.nodup
    rw [hheld] at hall
    exact fun hmem => List.disjoint_of_nodup_append hall hmem (by simp)
  have hpush : s.mgr.push g.ptr
      = { s.mgr with unused := s.mgr.unused.orderedInsert (· ≤ ·) g.ptr } := if_neg hnew
  have hsub : ∀ g', g' ∈ s.returning ++ (before ++ after) → g' ∈ s.returning ++ s.held := by
    intro g' hg'
    rw [hheld]
    simp only [List.mem_append, List.mem_cons] at hg' ⊢
    tauto
  rw [hpush]
  constructor
  case keys =>
    refine h.keys.trans ?_
    have hinsert := List.perm_orderedInsert (· ≤ ·) g.ptr s.mgr.unused
    rw [hheld]
    rw [List.perm_iff_count] at hinsert ⊢
    intro p
    have := hinsert p
    simp only [List.map_append, List.map_cons, List.count_append, List.count_cons] at this ⊢
    omega
  case addresses => exact h.addresses
  case serials => exact h.serials
  case serials_lt => exact h.serials_lt
  case given => exact fun g' hg' => h.given g' (hsub g' hg')
  case provenance =>
    intro g' hg'
    apply h.provenance g'
    rcases List.mem_append.mp hg' with hb | hg'
    · exact List.mem_append_left _ hb
    · exact List.mem_append_right _ (hsub g' hg')

/-- A client that changes stays where it is. -/
theorem Inv.change {s : Pool ι Config T} (h : Inv make verify s) (f : Nat → T → T) :
    Inv make verify { s with mgr := { s.mgr with clients := touch f s.mgr.clients } } := by
  have hkeys : (touch f s.mgr.clients).map Prod.fst = s.mgr.clients.map Prod.fst := by
    unfold touch
    rw [List.map_map]
    rfl
  have hserials : (touch f s.mgr.clients).map (fun e => e.2.serial)
      = s.mgr.clients.map (fun e => e.2.serial) := by
    unfold touch
    rw [List.map_map]
    rfl
  constructor
  case keys =>
    show ((touch f s.mgr.clients).map Prod.fst).Perm _
    rw [hkeys]
    exact h.keys
  case addresses =>
    show ((touch f s.mgr.clients).map Prod.fst ++ _).Nodup
    rw [hkeys]
    exact h.addresses
  case serials =>
    show ((touch f s.mgr.clients).map (fun e => e.2.serial) ++ _).Nodup
    rw [hserials]
    exact h.serials
  case serials_lt =>
    intro n hn
    unfold Pool.serials at hn
    dsimp only at hn
    rw [hserials] at hn
    exact h.serials_lt n hn
  case given =>
    intro g hg
    obtain ⟨client, hclient, hserial⟩ := h.given g hg
    have hmem : (g.ptr, (⟨client.serial, f g.ptr client.object⟩ : Made T))
        ∈ touch f s.mgr.clients := List.mem_map.mpr ⟨_, mem_of_find hclient, rfl⟩
    exact ⟨_, find_of_mem (by rw [hkeys]; exact h.nodup) hmem, hserial⟩
  case provenance => exact h.provenance

/-- `clear` does nothing unless every client is unused. -/
theorem Inv.clear {s : Pool ι Config T} (h : Inv make verify s) :
    Inv make verify (s.settle s.mgr.clear) := by
  unfold ClientMgr.clear
  split
  · exact h.settle (List.Sublist.refl _) rfl rfl rfl rfl h.keys (fun g hg => Or.inl hg)
  · rename_i hlengths
    rw [ne_eq, not_not] at hlengths
    have hlength := h.keys.length_eq
    simp only [List.length_map, List.length_append] at hlength
    have hreturning : s.returning = [] := List.eq_nil_of_length_eq_zero (by omega)
    have hheld : s.held = [] := List.eq_nil_of_length_eq_zero (by omega)
    have hlost : s.lost = [] := List.eq_nil_of_length_eq_zero (by omega)
    refine h.settle (List.nil_sublist _) rfl rfl rfl rfl ?_ (fun g hg => Or.inl hg)
    show List.Perm [] ([] ++ (s.returning.map Given.ptr ++ (s.held.map Given.ptr ++ s.lost)))
    rw [hreturning, hheld, hlost]
    exact List.Perm.refl _

/-- **One step.** -/
theorem Inv.step {s t : Pool ι Config T} {a : Action World ι Config} (h : Inv make verify s)
    (hstep : PoolStep make verify stop s a t) : Inv make verify t := by
  cases hstep with
  | pop w user config => exact h.pop w user config
  | construct ptr hcreating hmake howned hbuilt => exact h.construct hmake howned hbuilt _
  | constructThrows hcreating hmake => exact h.constructThrows _
  | add hbuilt => exact h.add hbuilt
  | receive hreturning => exact h.receive hreturning
  | push hheld => exact h.push hheld
  | use f hheld => exact h.change _
  | stop => exact h.change (fun _ => stop)
  | clear => exact h.clear

theorem reachable_inv {s : Pool ι Config T} (h : (clientMgr make verify stop).Reachable s) :
    Inv make verify s := by
  induction h with
  | init hinit =>
      rw [show _ = Pool.new from hinit]
      exact Inv.new
  | step _ hstep ih => exact ih.step hstep

/-! ## §4. Ownership. -/

variable (make verify)

/-- **What the pool keeps** in every run: no user holds a client twice, or
one that was destroyed, and no owned client was. -/
structure Ownership (s : Pool ι Config T) : Prop where
  unused_owned : ∀ ptr ∈ s.mgr.unused, ptr ∈ s.mgr.clients.map Prod.fst
  held_once : (s.held.map Given.ptr).Nodup
  held_owned : ∀ g ∈ s.held,
    ∃ client, find s.mgr.clients g.ptr = some client ∧ client.serial = g.client.serial
  provenance : ∀ g ∈ s.held, Provenance make verify g.config g.client.object
  held_alive : ∀ g ∈ s.held, g.client.serial ∉ s.destroyed
  owned_alive : ∀ e ∈ s.mgr.clients, e.2.serial ∉ s.destroyed

/-- Every owned client is unused, about to be handed out, or held. -/
def Accounted (s : Pool ι Config T) : Prop :=
  ∀ ptr ∈ s.mgr.clients.map Prod.fst,
    ptr ∈ s.mgr.unused ∨ (∃ g ∈ s.returning, g.ptr = ptr) ∨ ∃ g ∈ s.held, g.ptr = ptr

/-- Only clients no user holds are destroyed. -/
def Spares (s t : Pool ι Config T) : Prop :=
  ∀ serial ∈ t.destroyed, serial ∉ s.destroyed → ∀ g ∈ s.held, g.client.serial ≠ serial

/-- **The condition**: no verification throws. -/
def Calm (s : Pool ι Config T) : Action World ι Config → Prop
  | .pop w _ config =>
      ¬ Throws (fun client => verify w client config) s.mgr.unused s.mgr.clients
  | _ => True

variable {make verify}

theorem Inv.alive {s : Pool ι Config T} (h : Inv make verify s) {e : Nat × Made T}
    (he : e ∈ s.mgr.clients) : e.2.serial ∉ s.destroyed := by
  intro hdestroyed
  have hdisjoint := List.disjoint_of_nodup_append h.serials
  exact hdisjoint (List.mem_map.mpr ⟨e, he, rfl⟩) (List.mem_append_right _ hdestroyed)

theorem Inv.ownership {s : Pool ι Config T} (h : Inv make verify s) :
    Ownership make verify s where
  unused_owned := fun _ hptr => h.keys.mem_iff.mpr (List.mem_append_left _ hptr)
  held_once := by
    have hall := h.keys.nodup_iff.mp h.nodup
    exact hall.of_append_right.of_append_right.of_append_left
  held_owned := fun g hg => h.given g (List.mem_append_right _ hg)
  provenance := fun g hg =>
    h.provenance g (List.mem_append_right _ (List.mem_append_right _ hg))
  held_alive := by
    intro g hg
    obtain ⟨client, hclient, hserial⟩ := h.given g (List.mem_append_right _ hg)
    rw [← hserial]
    exact h.alive (mem_of_find hclient)
  owned_alive := fun _ he => h.alive he

theorem Inv.none_lost_iff {s : Pool ι Config T} (h : Inv make verify s) :
    Accounted s ↔ s.lost = [] := by
  constructor
  · intro haccounted
    by_contra hlost
    obtain ⟨ptr, hptr⟩ := List.exists_mem_of_ne_nil _ hlost
    have hall := h.keys.nodup_iff.mp h.nodup
    have howned : ptr ∈ s.mgr.clients.map Prod.fst := by
      rw [h.keys.mem_iff]
      simp [hptr]
    -- a lost client is at none of the other places
    rcases haccounted ptr howned with hunused | ⟨g, hg, rfl⟩ | ⟨g, hg, rfl⟩
    · exact List.disjoint_of_nodup_append hall hunused (by simp [hptr])
    · exact List.disjoint_of_nodup_append hall.of_append_right (List.mem_map_of_mem hg)
        (List.mem_append_right _ hptr)
    · exact List.disjoint_of_nodup_append hall.of_append_right.of_append_right
        (List.mem_map_of_mem hg) hptr
  · intro hlost ptr hptr
    have hmem := h.keys.mem_iff.mp hptr
    rw [hlost, List.append_nil, List.mem_append, List.mem_append, List.mem_map,
      List.mem_map] at hmem
    exact hmem

/-- What a step destroys. -/
theorem step_spares {s t : Pool ι Config T} {a : Action World ι Config}
    (h : Inv make verify s) (hstep : PoolStep make verify stop s a t) : Spares s t := by
  have halive := (h.step hstep).ownership.held_alive
  -- a step that destroys clients leaves the users what they hold
  have hkept : t.destroyed = s.destroyed ∨ t.held = s.held := by
    cases hstep with
    | pop w user config =>
        right
        unfold Pool.pop Pool.leave
        dsimp only
        split <;> rfl
    | construct ptr hcreating hmake howned hbuilt => exact Or.inl rfl
    | constructThrows hcreating hmake => exact Or.inl rfl
    | add hbuilt => exact Or.inl rfl
    | receive hreturning => exact Or.inl rfl
    | push hheld => exact Or.inl rfl
    | use f hheld => exact Or.inl rfl
    | stop => exact Or.inl rfl
    | clear => exact Or.inr rfl
  intro serial hnow hbefore g hg hserial
  rcases hkept with hdestroyed | hheld
  · rw [hdestroyed] at hnow
    exact hbefore hnow
  · rw [← hheld] at hg
    rw [← hserial] at hnow
    exact halive g hg hnow

/-- **A client is lost** by the steps that do not meet the condition. -/
theorem step_lost {s t : Pool ι Config T} {a : Action World ι Config}
    (h : Inv make verify s) (hstep : PoolStep make verify stop s a t) :
    t.lost = s.lost ↔ Calm verify s a := by
  cases hstep with
  | pop w user config =>
      have hthrows := popLoop_throws (fun client => verify w client config) s.mgr.unused _
        s.mgr.clients h.keys h.nodup
      show (s.pop verify w user config).lost = s.lost ↔
        ¬ Throws (fun client => verify w client config) s.mgr.unused s.mgr.clients
      rw [← hthrows]
      unfold Pool.pop Pool.leave
      dsimp only
      split
      next htaken =>
        rw [htaken]
        exact ⟨fun _ h => by simp at h, fun _ => rfl⟩
      next htaken =>
        rw [htaken]
        exact ⟨fun _ h => by simp at h, fun _ => rfl⟩
      next ptr htaken =>
        rw [htaken]
        constructor
        · intro heq
          have hlength := congrArg List.length heq
          simp [Pool.settle] at hlength
        · exact fun hnot => absurd ⟨ptr, rfl⟩ hnot
  | construct ptr hcreating hmake howned hbuilt => exact iff_of_true rfl trivial
  | constructThrows hcreating hmake => exact iff_of_true rfl trivial
  | add hbuilt => exact iff_of_true rfl trivial
  | receive hreturning => exact iff_of_true rfl trivial
  | push hheld => exact iff_of_true rfl trivial
  | use f hheld => exact iff_of_true rfl trivial
  | stop => exact iff_of_true rfl trivial
  | clear => exact iff_of_true rfl trivial

theorem calm_lost {s : Pool ι Config T}
    (h : ((clientMgr make verify stop).restrict (Calm verify)).Reachable s) : s.lost = [] := by
  induction h with
  | init hinit =>
      rw [show _ = Pool.new from hinit]
      rfl
  | step hreach hstep ih =>
      obtain ⟨hcalm, hstep⟩ := hstep
      rw [(step_lost (reachable_inv hreach.of_restrict) hstep).mpr hcalm]
      exact ih

/-- **Who owns a client.**  In every run no user holds a destroyed client, or
one that another user holds, every client that is held was built from its
configuration or verified against it, and only clients no user holds are
destroyed.  Every owned client is unused, about to be handed out or held, as
long as no verification throws, and no longer. -/
theorem client_ownership (make : World → Config → Option T)
    (verify : World → T → Config → Option Bool) (stop : T → T) :
    (∀ s : Pool ι Config T, (clientMgr make verify stop).Reachable s →
      Ownership make verify s ∧ (Accounted s ↔ s.lost = []) ∧
        ∀ a t, PoolStep make verify stop s a t →
          Spares s t ∧ (t.lost = s.lost ↔ Calm verify s a)) ∧
      ∀ s : Pool ι Config T,
        ((clientMgr make verify stop).restrict (Calm verify)).Reachable s → Accounted s := by
  constructor
  · intro s hreach
    have h := reachable_inv hreach
    exact ⟨h.ownership, h.none_lost_iff,
      fun a t hstep => ⟨step_spares h hstep, step_lost h hstep⟩⟩
  · intro s hreach
    exact (reachable_inv hreach.of_restrict).none_lost_iff.mpr (calm_lost hreach)

/-- **While a client is lost**, nothing is cleared. -/
theorem lost_never_cleared {s : Pool ι Config T} (h : Inv make verify s) (hlost : s.lost ≠ []) :
    s.mgr.clear = s.mgr := by
  unfold ClientMgr.clear
  rw [if_pos]
  have hlength := h.keys.length_eq
  have hpos := List.length_pos_of_ne_nil hlost
  simp only [List.length_map, List.length_append] at hlength
  omega

end Pool

/-! ## §5. A verification that throws. -/

/-- An environment with an account name, and one in which a number is none
any more. -/
def accountEnv : Environment :=
  fun name => if name = "AZURE_STORAGE_ACCOUNT_NAME" then some "acct" else none

def brokenEnv : Environment :=
  fun name => if name = "RUNAI_STREAMER_PROCESS_GROUP_SIZE" then some "two" else accountEnv name

/-- A client of no parameters. -/
def accountClient : AzureClient := ⟨some "acct", none, none, "blob.core.windows.net"⟩

/-- The pool of the Azure clients, for one user. -/
def azureClients : System (Pool Unit ObjectClientConfig AzureClient)
    (Action Environment Unit ObjectClientConfig) :=
  clientMgr (AzureClient.new (fun _ _ => true)) (fun env client config =>
    client.verifyCredentials env config) id

/-- **A client is built, pushed back and popped again**, and another one is
built meanwhile: both are accounted for. -/
theorem client_ownership_reused :
    ∃ s, (azureClients.restrict (Calm (fun env client config =>
        client.verifyCredentials env config))).Reachable s ∧
      s.mgr.unused = [1] ∧ s.held.map Given.ptr = [0] ∧
      Ownership (AzureClient.new (fun _ _ => true))
        (fun env client config => client.verifyCredentials env config) s ∧ Accounted s := by
  have h0 : (azureClients.restrict (Calm (fun env client config =>
      client.verifyCredentials env config))).Reachable Pool.new := .init rfl
  -- the first client
  have h1 := h0.restrict_step (PoolStep.pop Pool.new accountEnv () ⟨none, []⟩) id
  have h2 := h1.restrict_step (@PoolStep.construct _ _ _ _ _ _ _ _ [] [] accountEnv () ⟨none, []⟩
    accountClient 0 rfl (by decide) (by decide) (by decide)) trivial
  have h3 := h2.restrict_step (@PoolStep.add _ _ _ _ _ _ _ _ [] [] _ rfl) trivial
  have h4 := h3.restrict_step (@PoolStep.receive _ _ _ _ _ _ _ _ [] [] _ rfl) trivial
  -- the second one, while the first is held
  have h5 := h4.restrict_step (PoolStep.pop _ accountEnv () ⟨none, []⟩) id
  have h6 := h5.restrict_step (@PoolStep.construct _ _ _ _ _ _ _ _ [] [] accountEnv () ⟨none, []⟩
    accountClient 1 rfl (by decide) (by decide) (by decide)) trivial
  have h7 := h6.restrict_step (@PoolStep.add _ _ _ _ _ _ _ _ [] [] _ rfl) trivial
  have h8 := h7.restrict_step (@PoolStep.receive _ _ _ _ _ _ _ _ [] [] _ rfl) trivial
  -- the first is pushed back, verified and handed out again; then the second
  have h9 := h8.restrict_step (@PoolStep.push _ _ _ _ _ _ _ _ [_] [] _ rfl) trivial
  have h10 := h9.restrict_step (PoolStep.pop _ accountEnv () ⟨none, []⟩)
    (not_throws_of_verified rfl (by decide))
  have h11 := h10.restrict_step (@PoolStep.receive _ _ _ _ _ _ _ _ [] [] _ rfl) trivial
  have h12 := h11.restrict_step (@PoolStep.push _ _ _ _ _ _ _ _ [_] [] _ rfl) trivial
  obtain ⟨hruns, hcalmRuns⟩ := client_ownership (AzureClient.new (fun _ _ => true))
    (fun env client config => client.verifyCredentials env config) id
  exact ⟨_, h12, rfl, rfl, (hruns _ h12.of_restrict).1, hcalmRuns _ h12⟩

/-- What is left: a client, and nobody who could return it. -/
def lostPool : Pool Unit ObjectClientConfig AzureClient :=
  ⟨⟨[(0, ⟨0, accountClient⟩)], []⟩, [], [], [], [], [0], [], 1⟩

/-- **A client is built, pushed back, and lost**: the next `pop` takes it, and
its verification throws. -/
theorem thrown_client_lost :
    azureClients.Reachable lostPool ∧ ¬ Accounted lostPool ∧ lostPool.mgr.clear = lostPool.mgr := by
  have h0 : azureClients.Reachable Pool.new := .init rfl
  have h1 := h0.step (PoolStep.pop Pool.new accountEnv () ⟨none, []⟩)
  have h2 := h1.step (@PoolStep.construct _ _ _ _ _ _ _ _ [] [] accountEnv () ⟨none, []⟩
    accountClient 0 rfl (by decide) (by decide) (by decide))
  have h3 := h2.step (@PoolStep.add _ _ _ _ _ _ _ _ [] [] _ rfl)
  have h4 := h3.step (@PoolStep.receive _ _ _ _ _ _ _ _ [] [] _ rfl)
  have h5 := h4.step (@PoolStep.push _ _ _ _ _ _ _ _ [] [] _ rfl)
  have h6 := h5.step (PoolStep.pop _ brokenEnv () ⟨none, []⟩)
  refine ⟨h6, fun h => ?_, rfl⟩
  rcases h 0 (by decide) with hunused | ⟨g, hg, -⟩ | ⟨g, hg, -⟩
  · exact List.not_mem_nil hunused
  · exact List.not_mem_nil hg
  · exact List.not_mem_nil hg

end ModelStreamer.Clients
