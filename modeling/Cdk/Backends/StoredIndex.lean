import Cdk.Backends.PaymentStream
import Cdk.Lib.Simulation
import Cdk.Mint.KvStore
import Cdk.Nuts.Texts

/-!
# The index of a stream in the key-value store

A backend keeps the index of its stream as a decimal text in the store that it
shares with every other backend. Whatever these write under namespaces of their
own, a stream that reads its index there takes the steps of a stream that has it
for itself.
-/

namespace Cdk

open Lib

/-! ## Saving and reading an index -/

/-- The number of a stored text, if it is one. -/
def readIndex (bytes : List UInt8) : Option Nat :=
  (String.fromUTF8? ⟨bytes.toArray⟩).bind parseU64

theorem readIndex_toString {n : Nat} (hn : n < 2 ^ 64) :
    readIndex (utf8 (toString n)) = some n := by
  have hbytes : (⟨(utf8 (toString n)).toArray⟩ : ByteArray) = (toString n).toByteArray := by
    simp [utf8]
  rw [readIndex, hbytes, String.fromUTF8?, dif_pos (toString n).isValidUTF8]
  exact parseU64_toString hn

namespace Cln

/-- The namespaces of the backend and `LAST_PAY_INDEX_KV_KEY`. -/
def lastPayIndex : KvAddress :=
  ⟨"cdk_cln_lightning_backend", "payment_indices", "last_pay_index"⟩

/-- The stored index of `Cln::get_last_pay_index`. -/
def getStoredPayIndex : KvTx (Option Nat) := do
  let storedIndex ← kvRead lastPayIndex
  pure (storedIndex.bind readIndex)

/-- What the stream writes before it yields a payment. -/
def storePayIndex (payIndex : Nat) : List KvCall :=
  [.write lastPayIndex (utf8 (toString payIndex))]

end Cln

namespace Lnd

/-- The namespaces of the backend and `LAST_ADD_INDEX_KV_KEY`. -/
def lastAddIndex : KvAddress :=
  ⟨"cdk_lnd_lightning_backend", "payment_indices", "last_add_index"⟩

/-- The namespaces of the backend and `LAST_SETTLE_INDEX_KV_KEY`. -/
def lastSettleIndex : KvAddress :=
  ⟨"cdk_lnd_lightning_backend", "payment_indices", "last_settle_index"⟩

/-- `Lnd::get_last_indices`. -/
def getLastIndices : KvTx (Option Nat × Option Nat) := do
  let addIndex ← kvRead lastAddIndex
  let settleIndex ← kvRead lastSettleIndex
  pure (addIndex.bind readIndex, settleIndex.bind readIndex)

/-- What the stream writes for every update. -/
def storeIndices (addIndex settleIndex : Nat) : List KvCall :=
  [.write lastAddIndex (utf8 (toString addIndex)),
    .write lastSettleIndex (utf8 (toString settleIndex))]

end Lnd

/-! ## Streams over the store -/

/-- How a backend keeps its index: under a namespace of its own, which it reads at a start, and
beside another index of its node. -/
structure Keeper where
  primaryNamespace : String
  stored : KvTx (Option Nat)
  store : Nat → Nat → List KvCall
  /-- What a start reads. -/
  loaded : KvTable → Option Nat
  stored_eq : ∀ t, stored t = .ok (loaded t, t)
  loaded_store : ∀ t beside index, index < 2 ^ 64 →
    loaded ((store beside index).foldl KvCall.apply t) = some index
  loaded_frame : ∀ (t : KvTable) (calls : List KvCall),
    (∀ c ∈ calls, c.address.primaryNamespace ≠ primaryNamespace) →
    loaded (calls.foldl KvCall.apply t) = loaded t
  loaded_empty : loaded Table.empty = none

theorem Cln.lastPayIndex_valid : validateKvstoreParams Cln.lastPayIndex = .ok () := by
  decide +kernel

theorem Lnd.lastAddIndex_valid : validateKvstoreParams Lnd.lastAddIndex = .ok () := by
  decide +kernel

theorem Lnd.lastSettleIndex_valid : validateKvstoreParams Lnd.lastSettleIndex = .ok () := by
  decide +kernel

def Cln.keeper : Keeper where
  primaryNamespace := Cln.lastPayIndex.primaryNamespace
  stored := Cln.getStoredPayIndex
  store _ payIndex := Cln.storePayIndex payIndex
  loaded t := (t.get Cln.lastPayIndex).bind readIndex
  stored_eq := by
    intro t
    have hread : kvRead Cln.lastPayIndex t = .ok (t.get Cln.lastPayIndex, t) := by
      rw [kvRead_eq, Cln.lastPayIndex_valid]
      rfl
    exact Tx.bind_of_ok hread
  loaded_store := by
    intro t _ index hindex
    rw [Cln.storePayIndex, ← List.nil_append [KvCall.write _ _],
      KvTable.get_foldl_write [] Cln.lastPayIndex_valid]
    exact readIndex_toString hindex
  loaded_frame := by
    intro t calls h
    rw [KvTable.get_foldl_of_ne fun c hc haddress => h c hc (by rw [haddress])]
  loaded_empty := rfl

def Lnd.keeper : Keeper where
  primaryNamespace := Lnd.lastSettleIndex.primaryNamespace
  stored := do
    let indices ← Lnd.getLastIndices
    pure indices.2
  store := Lnd.storeIndices
  loaded t := (t.get Lnd.lastSettleIndex).bind readIndex
  stored_eq := by
    intro t
    have hadd : kvRead Lnd.lastAddIndex t = .ok (t.get Lnd.lastAddIndex, t) := by
      rw [kvRead_eq, Lnd.lastAddIndex_valid]
      rfl
    have hsettle : kvRead Lnd.lastSettleIndex t = .ok (t.get Lnd.lastSettleIndex, t) := by
      rw [kvRead_eq, Lnd.lastSettleIndex_valid]
      rfl
    have hboth : Lnd.getLastIndices t = .ok (((t.get Lnd.lastAddIndex).bind readIndex,
        (t.get Lnd.lastSettleIndex).bind readIndex), t) :=
      (Tx.bind_of_ok hadd).trans (Tx.bind_of_ok hsettle)
    exact Tx.bind_of_ok hboth
  loaded_store := by
    intro t beside index hindex
    rw [Lnd.storeIndices, ← List.singleton_append,
      KvTable.get_foldl_write [_] Lnd.lastSettleIndex_valid]
    exact readIndex_toString hindex
  loaded_frame := by
    intro t calls h
    rw [KvTable.get_foldl_of_ne fun c hc haddress => h c hc (by rw [haddress])]
  loaded_empty := rfl

/-- The streams of a backend, whose index is in the store, beside what other users store there. -/
structure KeptStream (μ : Type) where
  settled : List μ
  kv : KvTable
  cursor : Option (Nat × Nat)
  pending : Option (μ × WaitPaymentResponse)
  db : Db

inductive KeptMove (μ : Type) where
  /-- A move of the stream, its node or the mint; the other index of the node is stored beside. -/
  | stream (move : StreamMove μ) (beside : Nat)
  /-- A transaction of another user of the store. -/
  | transact (transaction : KvTransaction)

section Kept

variable {μ : Type} (keeper : Keeper) (feed : Feed μ)

def KeptStream.init (db : Db) : KeptStream μ := ⟨[], Table.empty, none, none, db⟩

/-- The stream with the index that it would read. -/
def KeptStream.view (k : KeptStream μ) : Streaming μ where
  settled := k.settled
  stored := (Tx.commit keeper.stored k.kv).1.getD none
  cursor := k.cursor
  pending := k.pending
  db := k.db

/-- The index that a move stores, in a transaction that may not be committed. -/
def Feed.saving (s : Streaming μ) : StreamMove μ → Option (Bool × Nat)
  | .receive saves _ =>
      match s.cursor, s.next with
      | some cursor, some invoice => some (saves, feed.advance cursor.1 (feed.number invoice))
      | _, _ => none
  | .refresh saves =>
      match s.cursor, s.pending with
      | some cursor, none => if feed.refreshes then some (saves, cursor.1) else none
      | _, _ => none
  | _ => none

/-- The stored index behind a transaction. -/
def storedAfter (stored : Option Nat) : Option (Bool × Nat) → Option Nat
  | some (true, index) => some index
  | _ => stored

/-- The numbers of a node are `u64`. -/
def Feed.numbered : StreamMove μ → Bool
  | .settle invoice => (feed.number invoice).blt (2 ^ 64)
  | _ => true

namespace KeptStream

/-- Store an index with the one beside it. -/
def save (k : KeptStream μ) (beside : Nat) : Option (Bool × Nat) → KvTable
  | some (saves, index) => KvTransaction.apply k.kv ⟨keeper.store beside index, saves⟩
  | none => k.kv

def step (k : KeptStream μ) : KeptMove μ → KeptStream μ
  | .stream move beside =>
      if feed.numbered move then
        let s := feed.step (k.view keeper) move
        { settled := s.settled
          kv := k.save keeper beside (feed.saving (k.view keeper) move)
          cursor := s.cursor
          pending := s.pending
          db := s.db }
      else k
  | .transact transaction =>
      -- the namespace of the backend is its own
      if transaction.calls.all fun c => c.address.primaryNamespace != keeper.primaryNamespace then
        { k with kv := transaction.apply k.kv }
      else k

end KeptStream

/-- The move of the stream, where a move is one. -/
def KeptMove.ofStream : KeptMove μ → Option (StreamMove μ)
  | .stream move _ => if feed.numbered move then some move else none
  | .transact _ => none

variable {keeper feed}

theorem KeptStream.view_stored (k : KeptStream μ) :
    (k.view keeper).stored = keeper.loaded k.kv := by
  rw [KeptStream.view, Tx.commit, keeper.stored_eq]
  rfl

theorem KeptStream.view_eq (k : KeptStream μ) :
    k.view keeper = ⟨k.settled, keeper.loaded k.kv, k.cursor, k.pending, k.db⟩ :=
  congrArg (fun stored => (⟨k.settled, stored, k.cursor, k.pending, k.db⟩ : Streaming μ))
    k.view_stored

/-- The numbers of a stream are those of its node, and fit into a `u64`. -/
structure Feed.Bounded (feed : Feed μ) (s : Streaming μ) : Prop where
  numbered : ∀ i invoice, s.settled[i]? = some invoice → feed.number invoice = i + 1
  fits : s.settled.length < 2 ^ 64
  stored_le : s.stored.getD 0 ≤ s.settled.length
  cursor_le : ∀ cursor ∈ s.cursor, cursor.1 ≤ cursor.2 ∧ cursor.2 ≤ s.settled.length

namespace Feed.Bounded

variable {s : Streaming μ} {invoice : μ}

theorem init (feed : Feed μ) (db : Db) : feed.Bounded (Streaming.init db) where
  numbered := fun _ _ h => by simp [Streaming.init] at h
  fits := Nat.two_pow_pos 64
  stored_le := Nat.le_refl _
  cursor_le := fun _ h => by cases h

theorem number_le (h : feed.Bounded s) (hmem : invoice ∈ s.settled) :
    feed.number invoice ≤ s.settled.length := by
  obtain ⟨i, hi⟩ := List.mem_iff_getElem?.mp hmem
  obtain ⟨hlt, -⟩ := List.getElem?_eq_some_iff.mp hi
  rw [h.numbered i invoice hi]
  exact hlt

theorem settle (h : feed.Bounded s) (hnumber : feed.number invoice = s.settled.length + 1)
    (hfits : feed.numbered (.settle invoice) = true) :
    feed.Bounded { s with settled := s.settled ++ [invoice] } where
  numbered := by
    intro i found hfound
    rcases Nat.lt_or_ge i s.settled.length with hlt | hge
    · rw [List.getElem?_append_left hlt] at hfound
      exact h.numbered i found hfound
    · rw [List.getElem?_append_right hge] at hfound
      obtain ⟨hlt, heq⟩ := List.getElem?_eq_some_iff.mp hfound
      rw [List.length_singleton] at hlt
      rw [List.getElem_singleton] at heq
      rw [← heq, hnumber]
      omega
  fits := by
    rw [Feed.numbered, Nat.blt_eq, hnumber] at hfits
    rwa [List.length_append, List.length_singleton]
  stored_le := by
    have hle := h.stored_le
    rw [List.length_append, List.length_singleton]
    exact hle.trans (Nat.le_succ _)
  cursor_le := by
    intro cursor hcursor
    obtain ⟨hle, hle'⟩ := h.cursor_le cursor hcursor
    rw [List.length_append, List.length_singleton]
    exact ⟨hle, hle'.trans (Nat.le_succ _)⟩

theorem start (h : feed.Bounded s) (reads : Bool) (last : Option Nat) :
    feed.Bounded { s with cursor := feed.started s reads last } where
  numbered := h.numbered
  fits := h.fits
  stored_le := h.stored_le
  cursor_le := by
    intro cursor hcursor
    refine feed.resume_bounds hcursor h.stored_le ?_
    cases hlisted : last.bind fun i => s.settled[i]? with
    | none => simp [Feed.listed, hlisted]
    | some found =>
        obtain ⟨i, -, hi⟩ := Option.bind_eq_some_iff.mp hlisted
        have hle := h.number_le (List.mem_of_getElem? hi)
        simpa [Feed.listed, hlisted] using hle

/-- The index behind the next invoice is its number. -/
theorem advance_next (h : feed.Bounded s) {cursor : Nat × Nat} (hcursor : cursor ∈ s.cursor)
    (hnext : s.next = some invoice) :
    feed.advance cursor.1 (feed.number invoice) = cursor.2 + 1 ∧
      cursor.2 + 1 ≤ s.settled.length := by
  obtain ⟨-, hsettled⟩ := Feed.Sound.next_eq_some hcursor hnext
  obtain ⟨hlt, -⟩ := List.getElem?_eq_some_iff.mp hsettled
  have hnumber := h.numbered cursor.2 invoice hsettled
  have hle := (h.cursor_le cursor hcursor).1
  rw [feed.advance_next (by omega), hnumber]
  exact ⟨rfl, hlt⟩

theorem receive (h : feed.Bounded s) (saves answered : Bool) {cursor : Nat × Nat}
    (hcursor : cursor ∈ s.cursor) (hnext : s.next = some invoice) :
    feed.Bounded (feed.received s saves answered cursor.1 cursor.2 invoice) := by
  obtain ⟨hadvance, hle⟩ := h.advance_next hcursor hnext
  constructor
  · exact h.numbered
  · exact h.fits
  · rw [Feed.received, hadvance]
    cases saves
    · exact h.stored_le
    · exact hle
  · intro cursor' hcursor'
    rw [Feed.received, hadvance] at hcursor'
    cases hcursor'
    exact ⟨Nat.le_refl _, hle⟩

theorem step (h : feed.Bounded s) {move : StreamMove μ} (hfits : feed.numbered move = true) :
    feed.Bounded (feed.step s move) := by
  cases move with
  | settle invoice =>
      dsimp only [Feed.step]
      split
      next hnumber => exact h.settle hnumber hfits
      next => exact h
  | start reads last =>
      dsimp only [Feed.step]
      split
      next => exact h.start reads last
      next => exact h
  | receive saves answered =>
      dsimp only [Feed.step]
      split
      next cursor invoice hcursor hnext => exact h.receive saves answered hcursor hnext
      next => exact h
  | refresh saves =>
      dsimp only [Feed.step]
      split
      next cursor hcursor hfree =>
        split
        next =>
          obtain ⟨hle, hle'⟩ := h.cursor_le cursor hcursor
          exact { h with stored_le := hle.trans hle' }
        next => exact h
      next => exact h
  | handle works =>
      dsimp only [Feed.step]
      split
      next => exact { h with }
      next => exact h
  | create quote => exact { h with }
  | check quoteId answer =>
      dsimp only [Feed.step]
      split
      next => exact { h with }
      next => exact h
  | crash => exact { h with cursor_le := fun _ hnone => by cases hnone }

/-- An index that is stored fits into a `u64`. -/
theorem saving_lt (h : feed.Bounded s) {move : StreamMove μ} {saves : Bool} {index : Nat}
    (hsaving : feed.saving s move = some (saves, index)) : index < 2 ^ 64 := by
  refine Nat.lt_of_le_of_lt ?_ h.fits
  cases move with
  | receive _ _ =>
      dsimp only [Feed.saving] at hsaving
      split at hsaving
      next cursor invoice hcursor hnext =>
        obtain ⟨hadvance, hle⟩ := h.advance_next hcursor hnext
        cases hsaving
        rwa [hadvance]
      next => cases hsaving
  | refresh _ =>
      dsimp only [Feed.saving] at hsaving
      split at hsaving
      next cursor hcursor hfree =>
        split at hsaving
        next =>
          cases hsaving
          obtain ⟨hle, hle'⟩ := h.cursor_le cursor hcursor
          exact hle.trans hle'
        next => cases hsaving
      next => cases hsaving
  | _ => cases hsaving

end Feed.Bounded

/-- A move stores what it saves, and otherwise leaves the stored index. -/
theorem Feed.step_stored (s : Streaming μ) (move : StreamMove μ) :
    (feed.step s move).stored = storedAfter s.stored (feed.saving s move) := by
  cases move with
  | receive saves answered =>
      dsimp only [Feed.step, Feed.saving]
      cases s.cursor with
      | none => rfl
      | some cursor =>
          cases s.next with
          | none => rfl
          | some invoice => cases saves <;> rfl
  | refresh saves =>
      dsimp only [Feed.step, Feed.saving]
      cases s.cursor with
      | none => rfl
      | some cursor =>
          cases s.pending with
          | some payment => rfl
          | none => cases feed.refreshes <;> cases saves <;> rfl
  | settle invoice =>
      dsimp only [Feed.step]
      split <;> rfl
  | start reads last =>
      dsimp only [Feed.step]
      split <;> rfl
  | handle works =>
      dsimp only [Feed.step]
      split <;> rfl
  | check quoteId answer =>
      dsimp only [Feed.step]
      split <;> rfl
  | create quote => rfl
  | crash => rfl

namespace KeptStream

variable {k : KeptStream μ}

/-- The index that is read after a move is the one that the move leaves to a stream of its own. -/
theorem loaded_save (h : feed.Bounded (k.view keeper)) (move : StreamMove μ) (beside : Nat) :
    keeper.loaded (k.save keeper beside (feed.saving (k.view keeper) move)) =
      (feed.step (k.view keeper) move).stored := by
  rw [Feed.step_stored]
  cases hsaving : feed.saving (k.view keeper) move with
  | none => exact k.view_stored.symm
  | some stored =>
      obtain ⟨saves, index⟩ := stored
      cases saves with
      | true => exact keeper.loaded_store _ _ _ (h.saving_lt hsaving)
      | false => exact k.view_stored.symm

/-- A move of the stream is one of a stream that has the index for itself; other transactions leave
the stream as it is. -/
theorem view_step (h : feed.Bounded (k.view keeper)) (move : KeptMove μ) :
    (k.step keeper feed move).view keeper =
      ((move.ofStream feed).map (feed.step (k.view keeper))).getD (k.view keeper) := by
  cases move with
  | stream move beside =>
      dsimp only [step, KeptMove.ofStream]
      split
      next =>
        rw [Option.map_some, Option.getD_some, view_eq, loaded_save h]
      next => rfl
  | transact transaction =>
      dsimp only [step, KeptMove.ofStream]
      split
      next hown =>
        have hloaded : keeper.loaded (transaction.apply k.kv) = keeper.loaded k.kv := by
          unfold KvTransaction.apply
          split
          next =>
            refine keeper.loaded_frame k.kv transaction.calls fun c hc => ?_
            simpa using List.all_eq_true.mp hown c hc
          next => rfl
        rw [view_eq, hloaded]
        exact k.view_eq.symm
      next => rfl

theorem bounded_step (h : feed.Bounded (k.view keeper)) (move : KeptMove μ) :
    feed.Bounded ((k.step keeper feed move).view keeper) := by
  rw [view_step h]
  cases hmove : move.ofStream feed with
  | none => exact h
  | some move' =>
      refine h.step ?_
      cases move with
      | transact transaction => cases hmove
      | stream move beside =>
          dsimp only [KeptMove.ofStream] at hmove
          split at hmove
          next hfits => exact Option.some.inj hmove ▸ hfits
          next => cases hmove

/-- A stream over the store is seen as one that has the index for itself. -/
theorem simulates (keeper : Keeper) (feed : Feed μ) :
    Simulates (KeptStream.step keeper feed) feed.step (KeptStream.view keeper)
      (KeptMove.ofStream feed) (fun k => feed.Bounded (k.view keeper)) where
  inv _ move h := bounded_step h move
  view_step _ move h := view_step h move

theorem view_init (keeper : Keeper) (db : Db) :
    (KeptStream.init db : KeptStream μ).view keeper = Streaming.init db := by
  rw [view_eq]
  exact congrArg (fun stored => (⟨[], stored, none, none, db⟩ : Streaming μ)) keeper.loaded_empty

end KeptStream

end Kept

/-- Whatever other backends store beside it, a stream that keeps its index in the store takes the
steps of a stream that has the index for itself. -/
theorem stored_index_refines (db : Db) :
    (∀ moves, (run (KeptStream.step Cln.keeper Cln.feed) (KeptStream.init db) moves).view
        Cln.keeper =
      run Cln.feed.step (Streaming.init db) (moves.filterMap (KeptMove.ofStream Cln.feed))) ∧
    ∀ moves, (run (KeptStream.step Lnd.keeper Lnd.feed) (KeptStream.init db) moves).view
        Lnd.keeper =
      run Lnd.feed.step (Streaming.init db) (moves.filterMap (KeptMove.ofStream Lnd.feed)) := by
  have hrun : ∀ {μ : Type} (keeper : Keeper) (feed : Feed μ) (moves : List (KeptMove μ)),
      (run (KeptStream.step keeper feed) (KeptStream.init db) moves).view keeper =
        run feed.step (Streaming.init db) (moves.filterMap (KeptMove.ofStream feed)) := by
    intro μ keeper feed moves
    have hinit := KeptStream.view_init (μ := μ) keeper db
    rw [← hinit]
    exact (KeptStream.simulates keeper feed).view_run (hinit ▸ .init feed db) moves
  exact ⟨hrun Cln.keeper Cln.feed, hrun Lnd.keeper Lnd.feed⟩

end Cdk
