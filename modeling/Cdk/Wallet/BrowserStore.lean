import Cdk.Lib.Runs
import Cdk.Wallet.ProofInfo

/-!
# The wallet store of the browser

A store is one item of the local storage of a page. Opening it reads the whole
state once and writes it back; from then on an instance answers from its own
copy, and every change writes the whole copy over the item. Operations of the
page open instances of their own and keep them across network requests, so a
run is any sequence of openings and of changes by the instances that are open.
-/

namespace Cdk

open Lib

/-- `WalletState`. The maps of mints, keysets, keys, quotes and transactions are one value of
another type, a counter that is absent is zero. -/
structure WalletState (R : Type) where
  proofs : List ProofInfo
  keysetCounters : Id → Nat
  others : R

instance {R : Type} [Inhabited R] : Inhabited (WalletState R) := ⟨⟨[], fun _ => 0, default⟩⟩

/-- The changes of a `LocalStorageWalletDatabase`. -/
inductive LocalChange (R : Type) where
  | updateProofs (added : List ProofInfo) (removedYs : List PublicKey)
  | updateProofsState (ys : List PublicKey) (newState : State)
  | incrementKeysetCounter (id : Id) (count : Nat)
  | other (f : R → R)

namespace WalletState

variable {R : Type}

/-- `LocalStorageWalletDatabase::update_proofs` removes before it adds. -/
def updateProofs (w : WalletState R) (added : List ProofInfo) (removedYs : List PublicKey) :
    WalletState R :=
  { w with proofs := (w.proofs.filter fun p => !removedYs.contains p.y) ++ added }

/-- `LocalStorageWalletDatabase::update_proofs_state`. -/
def updateProofsState (w : WalletState R) (ys : List PublicKey) (newState : State) :
    WalletState R :=
  { w with proofs := w.proofs.map fun p => if ys.contains p.y then p.setState newState else p }

/-- `LocalStorageWalletDatabase::increment_keyset_counter`, where the addition of the two `u32` does
not panic. -/
def incrementKeysetCounter (w : WalletState R) (id : Id) (count : Nat) : Option (WalletState R) :=
  let value := w.keysetCounters id + count
  if value < 2 ^ 32 then
    some { w with keysetCounters := Function.update w.keysetCounters id value }
  else none

def apply (w : WalletState R) : LocalChange R → Option (WalletState R)
  | .updateProofs added removedYs => some (w.updateProofs added removedYs)
  | .updateProofsState ys newState => some (w.updateProofsState ys newState)
  | .incrementKeysetCounter id count => w.incrementKeysetCounter id count
  | .other f => some { w with others := f w.others }

end WalletState

/-- The change adds a proof of the point. -/
def LocalChange.Adds {R : Type} (y : PublicKey) : LocalChange R → Prop
  | .updateProofs added _ => ∃ info ∈ added, info.y = y
  | _ => False

/-- The change removes the proofs of the point. -/
def LocalChange.Removes {R : Type} (y : PublicKey) : LocalChange R → Prop
  | .updateProofs _ removedYs => y ∈ removedYs
  | _ => False

namespace WalletState

variable {R : Type} {w w' : WalletState R} {c : LocalChange R}

/-- The proof is in the store, in any state. -/
def Has (info : ProofInfo) (w : WalletState R) : Prop :=
  ∃ stored ∈ w.proofs, stored.setState info.state = info

/-- No proof of the point is in the store. -/
def Lacks (y : PublicKey) (w : WalletState R) : Prop := ∀ info ∈ w.proofs, info.y ≠ y

theorem has_apply {info : ProofInfo} (h : w.Has info) (happly : w.apply c = some w')
    (hkept : ¬c.Removes info.y) : w'.Has info := by
  obtain ⟨stored, hstored, hsame⟩ := h
  have hy : stored.y = info.y := by rw [← hsame, ProofInfo.setState_y]
  cases c with
  | updateProofs added removedYs =>
      cases happly
      refine ⟨stored, List.mem_append_left added (List.mem_filter.mpr ⟨hstored, ?_⟩), hsame⟩
      rw [hy]
      simpa [LocalChange.Removes] using hkept
  | updateProofsState ys newState =>
      cases happly
      refine ⟨_, List.mem_map_of_mem hstored, ?_⟩
      split
      next => exact hsame
      next => exact hsame
  | incrementKeysetCounter id count =>
      simp only [apply, incrementKeysetCounter, Option.ite_none_right_eq_some] at happly
      obtain ⟨-, hw⟩ := happly
      cases hw
      exact ⟨stored, hstored, hsame⟩
  | other f =>
      cases happly
      exact ⟨stored, hstored, hsame⟩

theorem lacks_apply {y : PublicKey} (h : w.Lacks y) (happly : w.apply c = some w')
    (hkept : ¬c.Adds y) : w'.Lacks y := by
  cases c with
  | updateProofs added removedYs =>
      cases happly
      intro info hinfo
      rcases List.mem_append.mp hinfo with hinfo | hinfo
      · exact h info (List.mem_of_mem_filter hinfo)
      · exact fun hy => hkept ⟨info, hinfo, hy⟩
  | updateProofsState ys newState =>
      cases happly
      intro info hinfo
      obtain ⟨stored, hstored, rfl⟩ := List.mem_map.mp hinfo
      split
      next => exact h stored hstored
      next => exact h stored hstored
  | incrementKeysetCounter id count =>
      simp only [apply, incrementKeysetCounter, Option.ite_none_right_eq_some] at happly
      obtain ⟨-, hw⟩ := happly
      cases hw
      exact h
  | other f =>
      cases happly
      exact h

theorem keysetCounters_apply (happly : w.apply c = some w') (id : Id) :
    w.keysetCounters id ≤ w'.keysetCounters id := by
  cases c with
  | updateProofs added removedYs =>
      cases happly
      exact Nat.le_refl _
  | updateProofsState ys newState =>
      cases happly
      exact Nat.le_refl _
  | incrementKeysetCounter id' count =>
      simp only [apply, incrementKeysetCounter, Option.ite_none_right_eq_some] at happly
      obtain ⟨-, hw⟩ := happly
      cases hw
      change _ ≤ Function.update w.keysetCounters id' _ id
      by_cases hid : id = id'
      · subst hid
        rw [Function.update_self]
        exact Nat.le_add_right _ _
      · rw [Function.update_of_ne hid]
  | other f =>
      cases happly
      exact Nat.le_refl _

end WalletState

/-- The item of the local storage, the copies of the instances that are open, and which of them has
written the item last. -/
structure BrowserStore (R : Type) where
  snapshot : Option (WalletState R)
  instances : List (WalletState R)
  lastSaver : Option Nat

namespace BrowserStore

variable {R : Type}

/-- A page that has opened nothing yet, on an item that an earlier one may have left. -/
def new (snapshot : Option (WalletState R)) : BrowserStore R := ⟨snapshot, [], none⟩

inductive Action (R : Type) where
  | openStore
  | change (opened : Nat) (change : LocalChange R) (saves : Bool)

/-- An instance changes its copy and then saves it, which may fail. -/
def changeStore (s : BrowserStore R) (opened : Nat) (change : LocalChange R) (saves : Bool) :
    BrowserStore R :=
  match s.instances[opened]?.bind (·.apply change) with
  | none => s
  | some state =>
      { snapshot := if saves then some state else s.snapshot
        instances := s.instances.set opened state
        lastSaver := if saves then some opened else s.lastSaver }

/-- `LocalStorageWalletDatabase::new` starts from the default where no item can be read. -/
def openStore [Inhabited R] (s : BrowserStore R) : BrowserStore R :=
  let state := s.snapshot.getD default
  { snapshot := some state
    instances := s.instances ++ [state]
    lastSaver := some s.instances.length }

def step [Inhabited R] (s : BrowserStore R) : Action R → BrowserStore R
  | .openStore => s.openStore
  | .change opened change saves => s.changeStore opened change saves

/-- The value that `increment_keyset_counter` returns. -/
def incremented (s : BrowserStore R) (opened : Nat) (id : Id) (count : Nat) : Option Nat :=
  (s.instances[opened]?.bind (·.incrementKeysetCounter id count)).map (·.keysetCounters id)

/-- An instance that saves a change has written the item last, or has the item as its copy. -/
def Current (s : BrowserStore R) : Action R → Prop
  | .change opened _ true => s.lastSaver = some opened ∨ s.instances[opened]? = s.snapshot
  | _ => True

/-! ## What is saved stays -/

/-- The item has a property, and so has the copy of the instance that has written it last. -/
def Secured (P : WalletState R → Prop) (s : BrowserStore R) : Prop :=
  (∃ state, s.snapshot = some state ∧ P state) ∧
    ∀ opened, s.lastSaver = some opened → ∀ state ∈ s.instances[opened]?, P state

/-- A change that takes effect keeps a property. -/
def Action.Keeps (P : WalletState R → Prop) : Action R → Prop
  | .openStore => True
  | .change _ c _ => ∀ state state', P state → state.apply c = some state' → P state'

variable {P : WalletState R → Prop} {s : BrowserStore R}

theorem secured_of_saved {opened : Nat} {state state' : WalletState R} {change : LocalChange R}
    (hopened : s.instances[opened]? = some state) (happly : state.apply change = some state')
    (h : P state') : Secured P (s.changeStore opened change true) := by
  have hlt : opened < s.instances.length := (List.getElem?_eq_some_iff.mp hopened).1
  have hresult : s.changeStore opened change true =
      ⟨some state', s.instances.set opened state', some opened⟩ := by
    simp [changeStore, hopened, happly]
  rw [hresult]
  refine ⟨⟨state', rfl, h⟩, ?_⟩
  rintro _ ⟨⟩ own hown
  rw [Option.mem_def, List.getElem?_set_self hlt] at hown
  exact Option.some.inj hown ▸ h

theorem openStore_secured [Inhabited R] (h : Secured P s) : Secured P s.openStore := by
  obtain ⟨⟨state, hsnapshot, hP⟩, -⟩ := h
  have hresult : s.openStore = ⟨some state, s.instances ++ [state], some s.instances.length⟩ := by
    simp [openStore, hsnapshot]
  rw [hresult]
  refine ⟨⟨state, rfl, hP⟩, ?_⟩
  rintro _ ⟨⟩ own hown
  rw [Option.mem_def, List.getElem?_append_right (Nat.le_refl _), Nat.sub_self] at hown
  exact Option.some.inj hown ▸ hP

/-- A property that changes keep is not lost while every instance that saves is current. -/
theorem step_secured [Inhabited R] (s : BrowserStore R) (a : Action R) (h : Secured P s)
    (hok : s.Current a ∧ a.Keeps P) : Secured P (s.step a) := by
  obtain ⟨hcurrent, hkeeps⟩ := hok
  cases a with
  | openStore => exact openStore_secured h
  | change opened change saves =>
      cases hopened : s.instances[opened]? with
      | none => simpa [step, changeStore, hopened] using h
      | some state =>
          cases happly : state.apply change with
          | none => simpa [step, changeStore, hopened, happly] using h
          | some state' =>
              obtain ⟨⟨stored, hsnapshot, hstored⟩, hown⟩ := h
              cases saves with
              | true =>
                  have hstate : P state := by
                    rcases hcurrent with hlast | hsame
                    · exact hown opened hlast state hopened
                    · rw [hopened, hsnapshot] at hsame
                      exact Option.some.inj hsame ▸ hstored
                  exact secured_of_saved hopened happly (hkeeps state state' hstate happly)
              | false =>
                  have hresult : s.step (.change opened change false) =
                      ⟨s.snapshot, s.instances.set opened state', s.lastSaver⟩ := by
                    simp [step, changeStore, hopened, happly]
                  rw [hresult]
                  refine ⟨⟨stored, hsnapshot, hstored⟩, ?_⟩
                  intro saver hsaver own hmem
                  by_cases heq : saver = opened
                  · subst heq
                    have hlt := (List.getElem?_eq_some_iff.mp hopened).1
                    rw [Option.mem_def, List.getElem?_set_self hlt] at hmem
                    have hstate := hown saver hsaver state hopened
                    exact Option.some.inj hmem ▸ hkeeps state state' hstate happly
                  · rw [Option.mem_def, List.getElem?_set_ne (Ne.symm heq)] at hmem
                    exact hown saver hsaver own hmem

/-- What a saved change establishes, and all later changes keep, holds of the item in the end. -/
theorem stays_of_current [Inhabited R] {item : Option (WalletState R)}
    {first rest : List (Action R)} {opened : Nat} {c : LocalChange R} {state : WalletState R}
    (h : Along step Current (new item) (first ++ .change opened c true :: rest))
    (hopened : (run step (new item) first).instances[opened]? = some state)
    (hestablish : ∀ state', state.apply c = some state' → P state')
    (happly : (state.apply c).isSome) (hkeeps : ∀ a ∈ rest, a.Keeps P) :
    ∃ final, (run step (new item) (first ++ .change opened c true :: rest)).snapshot = some final ∧
      P final := by
  obtain ⟨state', hstate'⟩ := Option.isSome_iff_exists.mp happly
  obtain ⟨-, -, hafter⟩ := along_append.mp h
  rw [run_append, run_cons]
  have hsaved : Secured P (step (run step (new item) first) (.change opened c true)) :=
    secured_of_saved hopened hstate' (hestablish state' hstate')
  exact (@invariant_along (BrowserStore R) (Action R) step
    (fun s a => s.Current a ∧ a.Keeps P) (Secured P) step_secured _ _ hsaved
    (along_and hafter hkeeps)).1

/-- The action is a change of a kind. -/
def Action.Is (kind : LocalChange R → Prop) : Action R → Prop
  | .openStore => False
  | .change _ c _ => kind c

/-- No update is lost. What holds is about the item after a run: it has every proof that a saved
change added and no later one removed, it lacks every proof that a saved change removed and no later
one added, and no counter is below a value that was returned for it. -/
structure NoLostUpdate [Inhabited R] (item : Option (WalletState R)) (actions : List (Action R)) :
    Prop where
  added : ∀ first opened added removedYs rest,
    actions = first ++ .change opened (.updateProofs added removedYs) true :: rest →
    opened < (run step (new item) first).instances.length →
    ∀ info ∈ added, (∀ a ∈ rest, ¬a.Is (·.Removes info.y)) →
      ∃ final, (run step (new item) actions).snapshot = some final ∧ final.Has info
  removed : ∀ first opened added removedYs rest,
    actions = first ++ .change opened (.updateProofs added removedYs) true :: rest →
    opened < (run step (new item) first).instances.length →
    ∀ y ∈ removedYs, (∀ info ∈ added, info.y ≠ y) → (∀ a ∈ rest, ¬a.Is (·.Adds y)) →
      ∃ final, (run step (new item) actions).snapshot = some final ∧ final.Lacks y
  counted : ∀ first opened id count rest value,
    actions = first ++ .change opened (.incrementKeysetCounter id count) true :: rest →
    (run step (new item) first).incremented opened id count = some value →
      ∃ final, (run step (new item) actions).snapshot = some final ∧
        value ≤ final.keysetCounters id

/-- No update is lost in a run in which every instance that saves a change is current. -/
theorem noLostUpdate_of_current [Inhabited R] (item : Option (WalletState R))
    (actions : List (Action R)) (h : Along step Current (new item) actions) :
    NoLostUpdate item actions where
  added := by
    rintro first opened added removedYs rest rfl hlt info hinfo hrest
    apply stays_of_current h (List.getElem?_eq_getElem hlt) _ rfl
    · intro a ha
      cases a with
      | openStore => trivial
      | change opened' c saves =>
          exact fun w w' hw happly => WalletState.has_apply hw happly (hrest _ ha)
    · rintro _ ⟨⟩
      exact ⟨info, List.mem_append_right _ hinfo, rfl⟩
  removed := by
    rintro first opened added removedYs rest rfl hlt y hy hadded hrest
    apply stays_of_current h (List.getElem?_eq_getElem hlt) _ rfl
    · intro a ha
      cases a with
      | openStore => trivial
      | change opened' c saves =>
          exact fun w w' hw happly => WalletState.lacks_apply hw happly (hrest _ ha)
    · rintro _ ⟨⟩ info hinfo rfl
      rcases List.mem_append.mp hinfo with hinfo | hinfo
      · have hkept := (List.mem_filter.mp hinfo).2
        simp [hy] at hkept
      · exact hadded info hinfo rfl
  counted := by
    rintro first opened id count rest value rfl hvalue
    rw [incremented, Option.map_eq_some_iff] at hvalue
    obtain ⟨state', hstate', rfl⟩ := hvalue
    obtain ⟨state, hopened, happly⟩ := Option.bind_eq_some_iff.mp hstate'
    apply stays_of_current h hopened _ (Option.isSome_iff_exists.mpr ⟨state', happly⟩)
    · intro a ha
      cases a with
      | openStore => trivial
      | change opened' c saves =>
          exact fun w w' hw happly => hw.trans (WalletState.keysetCounters_apply happly id)
    · intro final hfinal
      rw [WalletState.apply, happly] at hfinal
      cases hfinal
      exact Nat.le_refl _

/-- A second instance is opened and saves changes after the first one has saved its own. -/
theorem noLostUpdate_of_current_at_two :
    NoLostUpdate (none : Option (WalletState Unit))
      [.openStore, .change 0 (.updateProofs [.sample 1] []) true, .openStore,
        .change 1 (.incrementKeysetCounter (.v1 0) 3) false,
        .change 1 (.updateProofs [.sample 2] [(ProofInfo.sample 1).y]) true] :=
  noLostUpdate_of_current none _
    ⟨trivial, .inl rfl, trivial, trivial, .inl rfl, trivial⟩

/-- Two instances are open, and what the second one saves overwrites what the first one has
saved. -/
theorem overwritten_save :
    ¬∀ (item : Option (WalletState Unit)) (actions : List (Action Unit)),
      NoLostUpdate item actions := by
  intro h
  let first : List (Action Unit) := [.openStore, .openStore]
  let rest : List (Action Unit) := [.change 1 (.updateProofs [.sample 2] []) true]
  obtain ⟨final, hfinal, stored, hstored, hsame⟩ :=
    (h none (first ++ .change 0 (.updateProofs [.sample 1] []) true :: rest)).added
      first 0 [.sample 1] [] rest rfl (by decide) (.sample 1) (by simp)
      (by simp [rest, Action.Is, LocalChange.Removes])
  have hproofs : final.proofs = [.sample 2] := by
    cases hfinal
    rfl
  rw [hproofs, List.mem_singleton] at hstored
  subst hstored
  exact absurd (congrArg ProofInfo.y hsame) (by decide)

end BrowserStore

end Cdk
