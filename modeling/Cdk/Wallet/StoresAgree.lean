import Cdk.Wallet.ProofStores

/-!
# The wallet stores agree

The same calls run on an empty SQL store, an empty redb store and an empty
store of the browser. While the calls stay clear of what one store does in its
own way, the tables of proofs stay the same up to order and the counters of
keysets stay equal, so all answers are the same, every balance is the total of
the proofs with the same filter, and no two ranges from one counter overlap.
-/

namespace Cdk

open Lib

namespace ProofStores

/-! ## Runs of the three stores -/

/-- A store and the ranges that it has handed out. -/
structure Running (σ : Type) where
  store : σ
  ranges : List (Range Id)

/-- The range that a caller takes from an answer. -/
def rangesOf : Call → Answer → List (Range Id)
  | .incrementKeysetCounter id count, .counter value => [⟨id, value - count, count⟩]
  | _, _ => []

/-- A call that fails changes nothing. -/
def Running.step {σ : Type} (exec : σ → Call → Outcome StoreError (Answer × σ)) (s : Running σ)
    (call : Call) : Running σ :=
  match exec s.store call with
  | .ok (answer, store) => ⟨store, s.ranges ++ rangesOf call answer⟩
  | _ => s

structure Stores where
  sql : Running SqlStore
  redb : Running RedbStore
  browser : Running LocalStore

/-- Empty stores; only SQL has rows of keysets, whose counters are zero. -/
def Stores.initial (keysets : List Id) : Stores :=
  ⟨⟨.empty keysets, []⟩, ⟨.empty, []⟩, ⟨⟨[], fun _ => 0, ()⟩, []⟩⟩

def step (env : SqlWallet.RowEnv) (s : Stores) (call : Call) : Stores where
  sql := s.sql.step (SqlStore.exec env) call
  redb := s.redb.step RedbStore.exec call
  browser := s.browser.step LocalStore.exec call

/-! ## Agreement -/

/-- The same answer, where the order of proofs does not matter. -/
def Answer.Same : Answer → Answer → Prop
  | .proofs infos, .proofs infos' => infos.Perm infos'
  | answer, answer' => answer = answer'

/-- Two stores both answer, and with the same answer. -/
def SameAnswers {σ τ : Type} (result : Outcome StoreError (Answer × σ))
    (result' : Outcome StoreError (Answer × τ)) : Prop :=
  ∃ answer store answer' store', result = .ok (answer, store) ∧ result' = .ok (answer', store') ∧
    answer.Same answer'

/-- The balance of a filter is the total of the proofs with that filter. -/
def SumsProofs {σ : Type} (exec : σ → Call → Outcome StoreError (Answer × σ)) (store : σ)
    (filter : BalanceFilter) : Prop :=
  ∃ infos, exec store (.getProofs filter.toProofFilter) = .ok (.proofs infos, store) ∧
    exec store (.getBalance filter) = .ok (.balance (totalOf infos), store)

/-- What a call of a run is to be like. -/
structure Agrees (env : SqlWallet.RowEnv) (s : Stores) (call : Call) : Prop where
  sql_redb : SameAnswers (SqlStore.exec env s.sql.store call) (RedbStore.exec s.redb.store call)
  redb_browser :
    SameAnswers (RedbStore.exec s.redb.store call) (LocalStore.exec s.browser.store call)
  balance : ∀ filter, call = .getBalance filter →
    SumsProofs (SqlStore.exec env) s.sql.store filter ∧
    SumsProofs RedbStore.exec s.redb.store filter ∧
    SumsProofs LocalStore.exec s.browser.store filter
  ranges : (step env s call).sql.ranges.Pairwise Range.Apart ∧
    (step env s call).redb.ranges.Pairwise Range.Apart ∧
    (step env s call).browser.ranges.Pairwise Range.Apart

/-- A proof that the SQL store reads back as it was written. -/
structure Storable (env : SqlWallet.RowEnv) (info : ProofInfo) : Prop where
  encodable : SqlWallet.ProofEncodable env info
  mintUrl : env.NormalUrl info.mintUrl
  unit : info.unit.Canonical env.casing

/-- Proofs are added that can be stored, and states are updated for proofs that are. -/
def Requested (env : SqlWallet.RowEnv) (s : Stores) : Call → Prop
  | .updateProofs added _ => ∀ info ∈ added, Storable env info
  | .updateProofsState ys _ => ∀ y ∈ ys, (s.redb.store.proofs.find? y).isSome = true
  | _ => True

/-- The stores do the same with a call. Added proofs have points of their own, which are neither
stored nor removed by the call. Proofs without a spending condition are not asked for with a list of
conditions that is not empty. A balance has no empty list of states unless it is zero anyway, its
unit is not told apart from that of a stored proof by letter case alone, and it fits a signed
number. A counter does not overflow, and where SQL has no row of the keyset, nothing was taken from
it before. -/
def Agreeable (env : SqlWallet.RowEnv) (s : Stores) : Call → Prop
  | .updateProofs added removed =>
      (added.map ProofInfo.y).Nodup ∧ ∀ info ∈ added, Storable env info ∧
        s.redb.store.proofs.find? info.y = none ∧ info.y ∉ removed
  | .updateProofsState ys _ => ∀ y ∈ ys, (s.redb.store.proofs.find? y).isSome = true
  | .getProofs filter =>
      ∀ conditions ∈ filter.spendingConditions, conditions ≠ [] →
        ∀ info ∈ s.redb.store.getProofs { filter with spendingConditions := none },
          info.spendingCondition ≠ none
  | .getBalance filter =>
      (filter.states = some [] →
        totalOf (s.redb.store.getProofs ⟨filter.mintUrl, filter.unit, none, none⟩) = 0) ∧
      (∀ unit ∈ filter.unit, ∀ info ∈ s.redb.store.proofs.rows,
        info.unit.toText env.casing = unit.toText env.casing → info.unit = unit) ∧
      totalOf (s.redb.store.getProofs filter.toProofFilter) < 2 ^ 63
  | .incrementKeysetCounter id count =>
      s.redb.store.counters id + count < 2 ^ 32 ∧
        ((∃ row ∈ s.sql.store.keysets.rows, row.id = .text id.toText) ∨
          s.redb.store.counters id = 0)

/-- The stores hold the same proofs and counters, and have handed out the same ranges. -/
structure Inv (env : SqlWallet.RowEnv) (s : Stores) : Prop where
  rows : Encoded (SqlWallet.proofRow env) s.redb.store.proofs s.sql.store.db.proofs
  storable : ∀ info ∈ s.redb.store.proofs.rows, Storable env info
  proofs : s.browser.store.proofs.Perm s.redb.store.proofs.rows
  counters : s.browser.store.keysetCounters = s.redb.store.counters
  keysets : ∀ row ∈ s.sql.store.keysets.rows, ∀ id, row.id = .text id.toText →
    row.counter = .integer (s.redb.store.counters id)
  bounded : ∀ id, s.redb.store.counters id < 2 ^ 32
  sqlRanges : s.sql.ranges = s.redb.ranges
  browserRanges : s.browser.ranges = s.redb.ranges
  handed : Range.Handed s.redb.store.counters s.redb.ranges

/-! ## Proofs -/

section Proofs

variable {env : SqlWallet.RowEnv} {t : ProofTable} {ys : List PublicKey} {state : State}

/-- Set the state of the proofs of some points. -/
def setStates (ys : List PublicKey) (state : State) (info : ProofInfo) : ProofInfo :=
  if ys.contains info.y then info.setState state else info

theorem setStates_y (ys : List PublicKey) (state : State) (info : ProofInfo) :
    (setStates ys state info).y = info.y := by
  unfold setStates
  split <;> rfl

/-- One more round of the loop of the redb store sets the state of one more proof. -/
theorem upsert_setState {info : ProofInfo} (hinfo : info ∈ t.rows) :
    (t.update (setStates ys state) (setStates_y ys state)).upsert (info.setState state) =
      t.update (setStates (ys ++ [info.y]) state) (setStates_y _ state) := by
  apply Table.ext_rows
  have hmem : ∃ r ∈ (t.update (setStates ys state) (setStates_y ys state)).rows,
      r.y = (info.setState state).y :=
    ⟨_, List.mem_map_of_mem hinfo, setStates_y ys state info⟩
  rw [Table.upsert_rows_of_mem hmem, Table.update_rows, Table.update_rows, List.map_map]
  apply List.map_congr_left
  intro r hr
  simp only [Function.comp_apply, setStates_y, ProofInfo.setState_y]
  by_cases hy : r.y = info.y
  · rw [if_pos hy, Table.eq_of_key hr hinfo hy]
    simp [setStates]
  · rw [if_neg hy]
    simp [setStates, hy]

/-- A call of the redb store for stored proofs sets the states of all of them. -/
theorem redbUpdateProofsState_eq (h : ∀ y ∈ ys, (t.find? y).isSome = true) :
    redbUpdateProofsState t ys state t =
      .ok ((), t.update (setStates ys state) (setStates_y ys state)) := by
  have hloop : ∀ done rest : List PublicKey, (∀ y ∈ rest, (t.find? y).isSome = true) →
      redbUpdateProofsState t rest state
          (t.update (setStates done state) (setStates_y done state)) =
        .ok ((), t.update (setStates (done ++ rest) state) (setStates_y _ state)) := by
    intro done rest
    induction rest generalizing done with
    | nil =>
        intro _
        simp only [List.append_nil]
        rfl
    | cons y rest ih =>
        intro hall
        obtain ⟨hy, hrest⟩ := List.forall_mem_cons.mp hall
        obtain ⟨info, hfind⟩ := Option.isSome_iff_exists.mp hy
        obtain ⟨hinfo, rfl⟩ := Table.find?_eq_some.mp hfind
        have hround : redbSetState t state info.y
            (t.update (setStates done state) (setStates_y done state)) =
              .ok ((), t.update (setStates (done ++ [info.y]) state) (setStates_y _ state)) :=
          redbSetState_ok.mpr ⟨info, hfind, (upsert_setState hinfo).symm⟩
        have hcons : redbUpdateProofsState t (info.y :: rest) state =
            (redbSetState t state info.y >>= fun _ => redbUpdateProofsState t rest state) := rfl
        have hrounds := ih (done ++ [info.y]) hrest
        simp only [List.append_assoc, List.singleton_append] at hrounds
        rw [hcons]
        exact Tx.bind_ok.mpr ⟨(), _, hround, hrounds⟩
  have hnone : t.update (setStates [] state) (setStates_y [] state) = t := by
    apply Table.ext_rows
    rw [Table.update_rows]
    exact (List.map_congr_left fun _ _ => rfl).trans (List.map_id _)
  have hall := hloop [] ys h
  rw [hnone] at hall
  exact hall

/-- The SQL store sets the state of a row as the state of its proof is set. -/
theorem setRowState_proofRow {info : ProofInfo} :
    SqlStore.setRowState ys state (SqlWallet.proofRow env info) =
      SqlWallet.proofRow env (setStates ys state info) := by
  have hy : (SqlWallet.proofRow env info).y = SqlWallet.Db.yColumn info.y := rfl
  unfold SqlStore.setRowState setStates
  rw [hy, SqlWallet.contains_map_column SqlWallet.yColumn_injective]
  split <;> rfl

/-- Where the added proofs have free points of their own, they are appended to what is kept. -/
theorem redbUpdateProofs_rows {added : List ProofInfo} {removed : List PublicKey}
    (hnodup : (added.map ProofInfo.y).Nodup)
    (hfree : ∀ info ∈ added, t.find? info.y = none ∧ info.y ∉ removed) :
    (redbUpdateProofs added removed t).rows =
      (t.rows.filter fun info => !removed.contains info.y) ++ added := by
  have hall : ((t.rows ++ added).map ProofInfo.y).Nodup := by
    rw [List.map_append]
    refine t.nodup.append hnodup ?_
    intro y hstored hadded
    obtain ⟨stored, hmem, rfl⟩ := List.mem_map.mp hstored
    obtain ⟨info, hinfo, hy⟩ := List.mem_map.mp hadded
    exact Table.find?_eq_none.mp (hfree info hinfo).1 stored hmem hy.symm
  have hkept : added.filter (fun info => !removed.contains info.y) = added := by
    apply List.filter_eq_self.mpr
    intro info hinfo
    simpa using (hfree info hinfo).2
  simp only [redbUpdateProofs, ProofTable.removeAll, ProofTable.insertAll, Table.delete,
    Table.foldl_upsert hall, List.filter_append]
  rw [hkept]

theorem totalOf_perm {infos infos' : List ProofInfo} (h : infos.Perm infos') :
    totalOf infos = totalOf infos' := by
  unfold totalOf Amount.total
  rw [List.map_map, List.map_map]
  exact (h.map _).sum_eq

@[simp] theorem totalOf_nil : totalOf [] = 0 := rfl

@[simp] theorem totalOf_cons (info : ProofInfo) (rest : List ProofInfo) :
    totalOf (info :: rest) = info.proof.amount.toNat + totalOf rest := by
  simp [totalOf]

theorem sumOf_eq {infos : List ProofInfo} (h : totalOf infos < 2 ^ 63) :
    sumOf infos = .ok (totalOf infos) := if_pos (by omega)

/-! ## The balance of the SQL store -/

/-- The filter of `get_proofs` that the `WHERE` of `get_balance` amounts to. -/
def sqlFilter (filter : BalanceFilter) : ProofFilter :=
  ⟨filter.mintUrl, filter.unit, filter.states.filter (!·.isEmpty), none⟩

theorem all_beq_comm {α : Type} [DecidableEq α] (filter : Option α) (a : α) :
    filter.all (a == ·) = filter.all (· == a) := by
  cases filter with
  | none => rfl
  | some b => exact Bool.beq_comm

/-- The clause on the state leaves out what is in no list of states, and an empty list is none. -/
theorem statesWhere_eq (states : Option (List State)) (state : State) :
    (((states.getD []).map fun s => SqlWallet.Value.text s.toText).isEmpty ||
      ((states.getD []).map fun s => SqlWallet.Value.text s.toText).contains (.text state.toText)) =
      (states.filter (!·.isEmpty)).all (·.contains state) := by
  have htext : Function.Injective fun s : State => SqlWallet.Value.text s.toText :=
    SqlWallet.text_injective.comp State.toText_injective
  rw [SqlWallet.contains_map_column htext]
  cases states with
  | none => rfl
  | some states =>
      cases states with
      | nil => rfl
      | cons first rest => simp [Option.filter]

theorem balanceWhere_proofRow {filter : BalanceFilter} {info : ProofInfo}
    (hunit : ∀ unit ∈ filter.unit,
      info.unit.toText env.casing = unit.toText env.casing → info.unit = unit) :
    SqlStore.balanceWhere env filter (SqlWallet.proofRow env info) =
      info.matchesConditions (sqlFilter filter) := by
  have hurls : (filter.mintUrl.all fun url => SqlWallet.Value.text info.mintUrl == .text url) =
      filter.mintUrl.all (· == info.mintUrl) := by
    rw [← all_beq_comm]
    congr 1
    funext url
    exact SqlWallet.beq_column SqlWallet.text_injective info.mintUrl url
  have hunits : (filter.unit.all fun unit =>
      SqlWallet.Value.text (info.unit.toText env.casing) == .text (unit.toText env.casing)) =
        filter.unit.all (· == info.unit) := by
    rw [← all_beq_comm]
    cases hfilter : filter.unit with
    | none => rfl
    | some unit =>
        rw [Option.all_some, Option.all_some, SqlWallet.beq_column SqlWallet.text_injective,
          Bool.eq_iff_iff, beq_iff_eq, beq_iff_eq]
        exact ⟨hunit unit hfilter, fun h => by rw [h]⟩
  simp only [SqlStore.balanceWhere, SqlWallet.proofRow, ProofInfo.matchesConditions, sqlFilter,
    hurls, hunits, statesWhere_eq, Option.all_none, Bool.and_true]

theorem foldlM_addSum {infos : List ProofInfo}
    (hamounts : ∀ info ∈ infos, info.proof.amount.toNat < 2 ^ 63) {start : Nat}
    (h : start + totalOf infos < 2 ^ 63) :
    (infos.map fun info => (SqlWallet.proofRow env info).amount).foldlM SqlStore.addSum
      (start : Int) = .ok ((start + totalOf infos : Nat) : Int) := by
  induction infos generalizing start with
  | nil => rfl
  | cons info rest ih =>
      obtain ⟨hinfo, hrest⟩ := List.forall_mem_cons.mp hamounts
      rw [totalOf_cons] at h ⊢
      have hround : SqlStore.addSum start (SqlWallet.proofRow env info).amount =
          .ok ((start + info.proof.amount.toNat : Nat) : Int) := by
        have hfits : SqlStore.fitsI64 ((start : Int) + info.proof.amount.toNat) = true := by
          simp only [SqlStore.fitsI64, Bool.and_eq_true, decide_eq_true_eq]
          omega
        simp only [SqlStore.addSum, SqlWallet.proofRow, SqlWallet.asI64_of_lt hinfo, if_pos hfits]
        rfl
      rw [List.map_cons, List.foldlM_cons, hround, Outcome.bind_ok, ih hrest (by omega),
        Nat.add_assoc]

theorem totalOf_sqlFilter {infos : List ProofInfo} {filter : BalanceFilter}
    (h : filter.states = some [] → totalOf (infos.filter fun info =>
      info.matchesConditions ⟨filter.mintUrl, filter.unit, none, none⟩) = 0) :
    totalOf (infos.filter fun info => info.matchesConditions (sqlFilter filter)) =
      totalOf (infos.filter fun info => info.matchesConditions filter.toProofFilter) := by
  by_cases hstates : filter.states = some []
  · have hsql : sqlFilter filter = ⟨filter.mintUrl, filter.unit, none, none⟩ := by
      simp [sqlFilter, hstates]
    have hnone : (infos.filter fun info => info.matchesConditions filter.toProofFilter) = [] := by
      simp [ProofInfo.matchesConditions, BalanceFilter.toProofFilter,
        hstates]
    rw [hsql, h hstates, hnone, totalOf_nil]
  · have hsame : sqlFilter filter = filter.toProofFilter := by
      have hfilter : filter.states.filter (!·.isEmpty) = filter.states := by
        cases hs : filter.states with
        | none => rfl
        | some states =>
            have hne : states ≠ [] := fun hnil => hstates (hnil ▸ hs)
            simp [Option.filter, hne]
      rw [sqlFilter, hfilter, BalanceFilter.toProofFilter]
    rw [hsame]

end Proofs

/-! ## Answers -/

section Answers

variable {env : SqlWallet.RowEnv} {s : Stores}

theorem getProofs_sql (h : Inv env s) (filter : ProofFilter) :
    s.sql.store.db.getProofs env filter = s.redb.store.getProofs filter := by
  apply h.rows.decodeWhere_eq
  intro info hinfo
  have hstorable := h.storable info hinfo
  exact SqlWallet.sqlRowToProofInfo_columns hstorable.encodable hstorable.mintUrl hstorable.unit

/-- The store of the browser selects a proof as the others do, unless the proof has no spending
condition and is asked for with a list of them. -/
theorem selects_eq_matchesConditions {filter : ProofFilter} {info : ProofInfo}
    (h : ∀ conditions ∈ filter.spendingConditions, conditions ≠ [] →
      info.matchesConditions { filter with spendingConditions := none } = true →
        info.spendingCondition ≠ none) :
    LocalStore.selects filter info = info.matchesConditions filter := by
  rw [LocalStore.selects, ProofInfo.matchesConditions, all_beq_comm, all_beq_comm]
  cases hcondition : info.spendingCondition with
  | some condition => simp
  | none =>
      cases hfilter : filter.spendingConditions with
      | none => rfl
      | some conditions =>
          by_cases hnil : conditions = []
          · simp [hnil]
          · -- the proof does not match the rest of the filter, so neither store selects it
            have hrest := fun hmatch => h conditions hfilter hnil hmatch hcondition
            simp only [ProofInfo.matchesConditions, Option.all_none, Bool.and_true,
              imp_false, Bool.not_eq_true] at hrest
            rw [hrest, Bool.false_and, Bool.false_and]

theorem getProofs_browser (h : Inv env s) {filter : ProofFilter}
    (hconditions : ∀ conditions ∈ filter.spendingConditions, conditions ≠ [] →
      ∀ info ∈ s.redb.store.getProofs { filter with spendingConditions := none },
        info.spendingCondition ≠ none) :
    (LocalStore.getProofs s.browser.store filter).Perm (s.redb.store.getProofs filter) := by
  have hselects : ∀ info ∈ s.redb.store.proofs.rows,
      LocalStore.selects filter info = info.matchesConditions filter := by
    intro info hinfo
    apply selects_eq_matchesConditions
    intro conditions hmem hne hmatch
    exact hconditions conditions hmem hne info (List.mem_filter.mpr ⟨hinfo, hmatch⟩)
  unfold LocalStore.getProofs RedbStore.getProofs
  exact (h.proofs.filter _).trans (.of_eq (List.filter_congr hselects))

theorem getBalance_sql (h : Inv env s) {filter : BalanceFilter}
    (hcall : Agreeable env s (.getBalance filter)) :
    s.sql.store.getBalance env filter =
      .ok (totalOf (s.redb.store.getProofs filter.toProofFilter)) := by
  obtain ⟨hstates, hunit, hbound⟩ := hcall
  let selected := s.redb.store.proofs.rows.filter fun info =>
    info.matchesConditions (sqlFilter filter)
  have hrows : s.sql.store.db.proofs.rows.filter (SqlStore.balanceWhere env filter) =
      selected.map (SqlWallet.proofRow env) := by
    rw [h.rows, List.filter_map]
    congr 1
    apply List.filter_congr
    intro info hinfo
    exact balanceWhere_proofRow fun unit hmem => hunit unit hmem info hinfo
  have htotal : totalOf selected = totalOf (s.redb.store.getProofs filter.toProofFilter) :=
    totalOf_sqlFilter hstates
  have hamounts : ∀ info ∈ selected, info.proof.amount.toNat < 2 ^ 63 := fun info hinfo =>
    (h.storable info (List.mem_of_mem_filter hinfo)).encodable.amount
  have hsum : ((selected.map (SqlWallet.proofRow env)).map SqlWallet.ProofRow.amount).foldlM
      SqlStore.addSum 0 = .ok (totalOf selected : Int) := by
    have hfrom := @foldlM_addSum env selected hamounts 0 (by omega)
    rw [Nat.zero_add] at hfrom
    rw [List.map_map]
    exact hfrom
  have hcast : (BitVec.ofInt 64 (totalOf selected : Int)).toNat = totalOf selected := by
    rw [BitVec.ofInt_natCast, BitVec.toNat_ofNat]
    omega
  rw [SqlStore.getBalance, hrows, hsum, Outcome.bind_ok, hcast, htotal]

/-- The counter that SQL reads is that of the other stores. -/
theorem currentCounter_eq (h : Inv env s) {id : Id}
    (hrow : (∃ row ∈ s.sql.store.keysets.rows, row.id = .text id.toText) ∨
      s.redb.store.counters id = 0) :
    s.sql.store.currentCounter id = .ok (s.redb.store.counters id) := by
  unfold SqlStore.currentCounter
  cases hfind : s.sql.store.keysets.find? (.text id.toText) with
  | none =>
      rcases hrow with ⟨row, hmem, hid⟩ | hzero
      · exact absurd hid (Table.find?_eq_none.mp hfind row hmem)
      · rw [hzero]
  | some row =>
      obtain ⟨hmem, hid⟩ := Table.find?_eq_some.mp hfind
      have hread : SqlStore.u32TryFrom (s.redb.store.counters id) =
          some (s.redb.store.counters id) := by
        have hbound := h.bounded id
        rw [SqlStore.u32TryFrom, Int.toNat_natCast, if_pos ⟨Int.natCast_nonneg _, hbound⟩]
      simp only [h.keysets row hmem id hid, SqlWallet.columnAsNumber, hread]
      rfl

/-! ## Every call -/

theorem Running.step_eq {σ : Type} {exec : σ → Call → Outcome StoreError (Answer × σ)}
    {running : Running σ} {call : Call} {answer : Answer} {store : σ}
    (h : exec running.store call = .ok (answer, store)) :
    running.step exec call = ⟨store, running.ranges ++ rangesOf call answer⟩ := by
  rw [Running.step, h]

/-- What the three stores answer to a call, and the stores after it. -/
structure Answered (env : SqlWallet.RowEnv) (s : Stores) (call : Call)
    (answer browserAnswer : Answer) (sql : SqlStore) (redb : RedbStore) (browser : LocalStore) : Prop where
  sql : SqlStore.exec env s.sql.store call = .ok (answer, sql)
  redb : RedbStore.exec s.redb.store call = .ok (answer, redb)
  browser : LocalStore.exec s.browser.store call = .ok (browserAnswer, browser)
  same : answer.Same browserAnswer
  ranges : rangesOf call browserAnswer = rangesOf call answer

theorem answered_updateProofs (env : SqlWallet.RowEnv) (s : Stores) (added : List ProofInfo)
    (removed : List PublicKey) :
    Answered env s (.updateProofs added removed) .done .done
      (s.sql.store.updateProofs env added removed)
      { s.redb.store with proofs := redbUpdateProofs added removed s.redb.store.proofs }
      (s.browser.store.updateProofs added removed) :=
  ⟨rfl, rfl, rfl, rfl, rfl⟩

theorem answered_updateProofsState {ys : List PublicKey}
    (h : ∀ y ∈ ys, (s.redb.store.proofs.find? y).isSome = true) (state : State) :
    Answered env s (.updateProofsState ys state) .done .done
      (s.sql.store.updateProofsState ys state)
      { s.redb.store with
        proofs := s.redb.store.proofs.update (setStates ys state) (setStates_y ys state) }
      (s.browser.store.updateProofsState ys state) where
  sql := rfl
  redb := by
    simp only [RedbStore.exec, redbUpdateProofsState_eq h]
    rfl
  browser := rfl
  same := rfl
  ranges := rfl

theorem answered_getProofs (h : Inv env s) {filter : ProofFilter}
    (hcall : Agreeable env s (.getProofs filter)) :
    Answered env s (.getProofs filter) (.proofs (s.redb.store.getProofs filter))
      (.proofs (LocalStore.getProofs s.browser.store filter)) s.sql.store s.redb.store
      s.browser.store where
  sql := by rw [SqlStore.exec, getProofs_sql h]
  redb := rfl
  browser := rfl
  same := (getProofs_browser h hcall).symm
  ranges := rfl

/-- The balance of a filter without a spending condition is over the same proofs. -/
theorem totalOf_browser (h : Inv env s) (filter : BalanceFilter) :
    totalOf (LocalStore.getProofs s.browser.store filter.toProofFilter) =
      totalOf (s.redb.store.getProofs filter.toProofFilter) := by
  apply totalOf_perm
  apply getProofs_browser h
  intro _ hnone
  cases hnone

theorem answered_getBalance (h : Inv env s) {filter : BalanceFilter}
    (hcall : Agreeable env s (.getBalance filter)) :
    Answered env s (.getBalance filter)
      (.balance (totalOf (s.redb.store.getProofs filter.toProofFilter)))
      (.balance (totalOf (s.redb.store.getProofs filter.toProofFilter))) s.sql.store s.redb.store
      s.browser.store where
  sql := by rw [SqlStore.exec, getBalance_sql h hcall, Outcome.bind_ok]
  redb := by rw [RedbStore.exec, sumOf_eq hcall.2.2, Outcome.bind_ok]
  browser := by
    have hbound := hcall.2.2
    rw [← totalOf_browser h filter] at hbound ⊢
    rw [LocalStore.exec, sumOf_eq hbound, Outcome.bind_ok]
  same := rfl
  ranges := rfl

theorem answered_incrementKeysetCounter (h : Inv env s) {id : Id} {count : Nat}
    (hcall : Agreeable env s (.incrementKeysetCounter id count)) :
    Answered env s (.incrementKeysetCounter id count)
      (.counter (s.redb.store.counters id + count)) (.counter (s.redb.store.counters id + count))
      { s.sql.store with
        keysets := s.sql.store.keysets.update
          (SqlStore.setRowCounter id (s.redb.store.counters id + count))
          (SqlStore.setRowCounter_id id _) }
      { s.redb.store with
        counters := Function.update s.redb.store.counters id (s.redb.store.counters id + count) }
      { s.browser.store with
        keysetCounters :=
          Function.update s.redb.store.counters id (s.redb.store.counters id + count) } where
  sql := by
    simp only [SqlStore.exec, SqlStore.incrementKeysetCounter, currentCounter_eq h hcall.2,
      Outcome.bind_ok, if_pos hcall.1]
  redb := by
    simp only [RedbStore.exec, RedbStore.incrementKeysetCounter, if_pos hcall.1, Outcome.bind_ok]
  browser := by
    simp only [LocalStore.exec, WalletState.incrementKeysetCounter, h.counters, if_pos hcall.1,
      Outcome.expect, Outcome.bind_ok, Function.update_self]
  same := rfl
  ranges := rfl

theorem Answered.step_eq {call : Call} {answer browserAnswer : Answer} {sql : SqlStore}
    {redb : RedbStore} {browser : LocalStore}
    (h : Answered env s call answer browserAnswer sql redb browser) :
    step env s call =
      ⟨⟨sql, s.sql.ranges ++ rangesOf call answer⟩, ⟨redb, s.redb.ranges ++ rangesOf call answer⟩,
        ⟨browser, s.browser.ranges ++ rangesOf call answer⟩⟩ := by
  rw [step, Running.step_eq h.sql, Running.step_eq h.redb, Running.step_eq h.browser, h.ranges]

/-- A call that only asks changes nothing. -/
theorem Answered.step_query {call : Call} {answer browserAnswer : Answer}
    (h : Answered env s call answer browserAnswer s.sql.store s.redb.store s.browser.store)
    (hquiet : rangesOf call answer = []) : step env s call = s := by
  rw [h.step_eq, hquiet, List.append_nil, List.append_nil, List.append_nil]

theorem inv_updateProofs (h : Inv env s) {added : List ProofInfo} {removed : List PublicKey}
    (hcall : Agreeable env s (.updateProofs added removed)) :
    Inv env (step env s (.updateProofs added removed)) := by
  obtain ⟨hnodup, hadded⟩ := hcall
  have hrows := redbUpdateProofs_rows hnodup fun info hinfo => (hadded info hinfo).2
  rw [(answered_updateProofs env s added removed).step_eq]
  simp only [rangesOf, List.append_nil]
  exact { h with
    rows := SqlWallet.encoded_updateProofs h.rows added removed
    storable := by
      intro info hinfo
      rw [hrows] at hinfo
      rcases List.mem_append.mp hinfo with hinfo | hinfo
      · exact h.storable info (List.mem_of_mem_filter hinfo)
      · exact (hadded info hinfo).1
    proofs := by
      rw [hrows]
      exact (h.proofs.filter _).append_right added }

theorem inv_updateProofsState (h : Inv env s) {ys : List PublicKey} {state : State}
    (hcall : Agreeable env s (.updateProofsState ys state)) :
    Inv env (step env s (.updateProofsState ys state)) := by
  rw [(answered_updateProofsState hcall state).step_eq]
  simp only [rangesOf, List.append_nil]
  exact { h with
    rows := h.rows.update (setStates_y ys state) (SqlStore.setRowState_y ys state) fun _ _ =>
      setRowState_proofRow
    storable := by
      intro info hinfo
      obtain ⟨stored, hstored, rfl⟩ := List.mem_map.mp hinfo
      have hold := h.storable stored hstored
      unfold setStates
      split
      · exact ⟨{ hold.encodable with }, hold.mintUrl, hold.unit⟩
      · exact hold
    proofs := h.proofs.map (setStates ys state) }

theorem inv_incrementKeysetCounter (h : Inv env s) {id : Id} {count : Nat}
    (hcall : Agreeable env s (.incrementKeysetCounter id count)) :
    Inv env (step env s (.incrementKeysetCounter id count)) := by
  rw [(answered_incrementKeysetCounter h hcall).step_eq]
  simp only [rangesOf, Nat.add_sub_cancel]
  exact { h with
    counters := rfl
    keysets := by
      intro row hrow id' hid
      obtain ⟨old, hold, rfl⟩ := List.mem_map.mp hrow
      rw [SqlStore.setRowCounter_id] at hid
      by_cases hsame : id' = id
      · subst hsame
        simp [SqlStore.setRowCounter, hid]
      · have hother : old.id ≠ .text id.toText := fun htext =>
          hsame (Id.toText_injective (SqlWallet.text_injective (hid.symm.trans htext)))
        simp only [SqlStore.setRowCounter, beq_iff_eq, if_neg hother, Function.update_of_ne hsame]
        exact h.keysets old hold id' hid
    bounded := by
      intro id'
      dsimp only
      by_cases hsame : id' = id
      · subst hsame
        rw [Function.update_self]
        exact hcall.1
      · rw [Function.update_of_ne hsame]
        exact h.bounded id'
    sqlRanges := by rw [h.sqlRanges]
    browserRanges := by rw [h.browserRanges]
    handed := h.handed.take id count }

theorem inv_step (s : Stores) (call : Call) (h : Inv env s) (hcall : Agreeable env s call) :
    Inv env (step env s call) := by
  cases call with
  | updateProofs added removed => exact inv_updateProofs h hcall
  | updateProofsState ys state => exact inv_updateProofsState h hcall
  | getProofs filter => rwa [(answered_getProofs h hcall).step_query rfl]
  | getBalance filter => rwa [(answered_getBalance h hcall).step_query rfl]
  | incrementKeysetCounter id count => exact inv_incrementKeysetCounter h hcall

theorem counter_foldl_upsert (keysets : List Id) {t : Table KeysetRow.id}
    (h : ∀ row ∈ t.rows, row.counter = .integer 0) :
    ∀ row ∈ (keysets.foldl (fun t id => t.upsert ⟨.text id.toText, .integer 0⟩) t).rows,
      row.counter = .integer 0 := by
  induction keysets generalizing t with
  | nil => exact h
  | cons id rest ih => exact ih (SqlWallet.read_upsert h rfl)

theorem inv_initial (env : SqlWallet.RowEnv) (keysets : List Id) :
    Inv env (Stores.initial keysets) where
  rows := .empty
  storable := by intro _ hinfo; cases hinfo
  proofs := .nil
  counters := rfl
  keysets := by
    intro row hrow id _
    exact counter_foldl_upsert keysets (by intro _ hmem; cases hmem) row hrow
  bounded := by intro _; exact Nat.two_pow_pos 32
  sqlRanges := rfl
  browserRanges := rfl
  handed := Range.Handed.nil _

/-- Stores that hold the same answer the same. -/
theorem agrees_of_inv (s : Stores) (call : Call) (h : Inv env s) (hcall : Agreeable env s call) :
    Agrees env s call := by
  have hinv := inv_step s call h hcall
  have hranges := hinv.handed.pairwise
  have hanswered : ∃ answer browserAnswer sql redb browser,
      Answered env s call answer browserAnswer sql redb browser := by
    cases call with
    | updateProofs added removed => exact ⟨_, _, _, _, _, answered_updateProofs env s added removed⟩
    | updateProofsState ys state => exact ⟨_, _, _, _, _, answered_updateProofsState hcall state⟩
    | getProofs filter => exact ⟨_, _, _, _, _, answered_getProofs h hcall⟩
    | getBalance filter => exact ⟨_, _, _, _, _, answered_getBalance h hcall⟩
    | incrementKeysetCounter id count =>
        exact ⟨_, _, _, _, _, answered_incrementKeysetCounter h hcall⟩
  obtain ⟨answer, browserAnswer, sql, redb, browser, hresults⟩ := hanswered
  refine ⟨⟨answer, sql, answer, redb, hresults.sql, hresults.redb, ?_⟩,
    ⟨answer, redb, browserAnswer, browser, hresults.redb, hresults.browser, hresults.same⟩, ?_, ?_⟩
  · cases answer <;> simp [Answer.Same]
  · rintro filter rfl
    have hbalance := answered_getBalance h hcall
    have hproofs := getProofs_sql h filter.toProofFilter
    refine ⟨⟨_, by rw [SqlStore.exec, hproofs], hbalance.sql⟩, ⟨_, rfl, hbalance.redb⟩, _, rfl, ?_⟩
    rw [totalOf_browser h]
    exact hbalance.browser
  · rw [hinv.sqlRanges, hinv.browserRanges]
    exact ⟨hranges, hranges, hranges⟩

end Answers

/-- In a run whose calls stay clear of what one store does in its own way, all calls agree. -/
theorem agrees_of_agreeable (env : SqlWallet.RowEnv) (keysets : List Id) {calls : List Call}
    (h : Along (step env) (Agreeable env) (Stores.initial keysets) calls) :
    Along (step env) (Agrees env) (Stores.initial keysets) calls :=
  along_of_invariant inv_step agrees_of_inv (inv_initial env keysets) h

/-! ## A proof of one sat -/

theorem storable_sampleProof : Storable SqlWallet.sampleEnv SqlWallet.sampleProof :=
  ⟨SqlWallet.encodable_sampleProof, SqlWallet.normalUrl_sample, SqlWallet.canonical_sat⟩

/-- A proof is stored and spent, and two ranges are taken from the counter of its keyset. -/
theorem agrees_sampleProof :
    Along (step SqlWallet.sampleEnv) (Agrees SqlWallet.sampleEnv) (Stores.initial [.v1 0])
      [.updateProofs [SqlWallet.sampleProof] [], .getProofs ⟨none, none, none, none⟩,
        .updateProofsState [SqlWallet.sampleProof.y] .spent,
        .getBalance ⟨none, none, some [.spent]⟩, .incrementKeysetCounter (.v1 0) 3, .incrementKeysetCounter (.v1 0) 2] := by
  apply agrees_of_agreeable
  refine ⟨⟨by decide, ?_⟩, ?_, ?_, ⟨?_, ?_, ?_⟩, ⟨?_, ?_⟩, ⟨?_, ?_⟩, trivial⟩
  · intro info hinfo
    rw [List.mem_singleton.mp hinfo]
    exact ⟨storable_sampleProof, rfl, by simp⟩
  · intro conditions hmem
    cases hmem
  · intro y hy
    rw [List.mem_singleton.mp hy]
    decide +kernel
  · intro hstates
    cases hstates
  · intro unit hmem
    cases hmem
  · decide +kernel
  · decide +kernel
  · exact .inl ⟨⟨.text (Id.v1 0).toText, .integer 0⟩, List.mem_cons_self, rfl⟩
  · decide +kernel
  · exact .inl ⟨⟨.text (Id.v1 0).toText, .integer 3⟩, List.mem_cons_self, rfl⟩

/-- A stored proof is added again: SQL and redb overwrite it, the browser keeps both. -/
theorem not_agrees_sampleProof :
    ¬ ∀ (env : SqlWallet.RowEnv) (keysets : List Id) (calls : List Call),
      Along (step env) (Requested env) (Stores.initial keysets) calls →
        Along (step env) (Agrees env) (Stores.initial keysets) calls := by
  intro h
  have hadded : ∀ info ∈ [SqlWallet.sampleProof], Storable SqlWallet.sampleEnv info := by
    intro info hinfo
    rw [List.mem_singleton.mp hinfo]
    exact storable_sampleProof
  have hall := h SqlWallet.sampleEnv [] [.updateProofs [SqlWallet.sampleProof] [],
    .updateProofs [SqlWallet.sampleProof] [], .getProofs ⟨none, none, none, none⟩]
      ⟨hadded, hadded, trivial, trivial⟩
  obtain ⟨-, -, hagrees, -⟩ := hall
  obtain ⟨_, _, _, _, hredb, hbrowser, hsame⟩ := hagrees.redb_browser
  cases hredb
  cases hbrowser
  have hlength := hsame.length_eq
  revert hlength
  decide +kernel

end ProofStores

end Cdk
