import Cdk.Wallet.Swap

/-!
# Balances of mints that share a store

The wallets of several mints keep their proofs in one store. What a mint can
spend are its unspent proofs in the unit of its wallet. Marking proofs takes
them out of the balance, and exchanging proofs for new ones changes no balance
but that of the mint of the new ones.
-/

namespace Cdk

open Lib

namespace Wallet

open Selection (worth)

section Balance

variable (w : Wallet)

/-- The entry counts for the balance of the mint. -/
def isUnspent (info : ProofInfo) : Bool :=
  info.matchesConditions ⟨some w.mintUrl, some w.unit, some [.unspent], none⟩

def unspentInfos (s : Store) : List ProofInfo := s.proofs.rows.filter w.isUnspent

/-- `Wallet::get_unspent_proofs`. -/
def getUnspentProofs (s : Store) : List Proof := w.getProofsWith [.unspent] none s

def unspentTotal (s : Store) : Nat := worth (w.getUnspentProofs s)

/-- The entries of the mint are filed under the points of their proofs. -/
def Filed (s : Store) : Prop :=
  ∀ info ∈ s.proofs.rows, info.mintUrl = w.mintUrl → info.proof.toProof.y w.env = some info.y

variable {w} {info : ProofInfo} {infos : List ProofInfo} {ys : List PublicKey} {state : State}
  {s : Store}

theorem isUnspent_iff : w.isUnspent info = true ↔
    info.mintUrl = w.mintUrl ∧ info.unit = w.unit ∧ info.state = .unspent := by
  simp [isUnspent, ProofInfo.matchesConditions, eq_comm (a := w.mintUrl), eq_comm (a := w.unit),
    and_assoc]

theorem unspentInfos_congr {s' : Store} (h : s'.proofs = s.proofs) :
    w.unspentInfos s' = w.unspentInfos s :=
  congrArg (fun proofs : ProofTable => proofs.rows.filter w.isUnspent) h

theorem getUnspentProofs_eq :
    w.getUnspentProofs s = (w.unspentInfos s).map fun info => info.proof.toProof := rfl

theorem unspentTotal_congr {s' : Store} (h : w.unspentInfos s' = w.unspentInfos s) :
    w.unspentTotal s' = w.unspentTotal s := by
  rw [unspentTotal, unspentTotal, getUnspentProofs_eq, getUnspentProofs_eq, h]

theorem mem_unspentInfos :
    info ∈ w.unspentInfos s ↔ info ∈ s.proofs.rows ∧ info.mintUrl = w.mintUrl ∧
      info.unit = w.unit ∧ info.state = .unspent := by
  rw [unspentInfos, List.mem_filter, isUnspent_iff]

/-- A balance is zero exactly if no unspent proof is worth anything. -/
theorem unspentTotal_eq_zero :
    w.unspentTotal s = 0 ↔ ∀ info ∈ w.unspentInfos s, info.proof.amount = .zero := by
  rw [unspentTotal, worth, total_eq_zero, getUnspentProofs_eq, List.map_map, List.forall_mem_map]
  rfl

/-- The points of the unspent proofs are those that they are filed under. -/
theorem ys_getUnspentProofs (hfiled : w.Filed s) :
    w.ys (w.getUnspentProofs s) = .ok ((w.unspentInfos s).map ProofInfo.y) := by
  have hall : ∀ info ∈ w.unspentInfos s, info.proof.toProof.y w.env = some info.y := fun info h =>
    hfiled info (mem_unspentInfos.mp h).1 (mem_unspentInfos.mp h).2.1
  rw [getUnspentProofs_eq, ys]
  generalize w.unspentInfos s = infos at hall
  induction infos with
  | nil => rfl
  | cons info rest ih =>
      obtain ⟨hfirst, hrest⟩ := List.forall_mem_cons.mp hall
      rw [List.map_cons, List.map_cons, List.mapM_cons, hfirst, Outcome.ofOption_some,
        Outcome.bind_ok, ih hrest]
      rfl

/-- An entry that is unspent behind a mark was unspent before, and is none of the marked ones. -/
theorem mem_unspentInfos_mark (hstate : state ≠ .unspent) :
    info ∈ w.unspentInfos (s.updateProofsState ys state) ↔
      info ∈ w.unspentInfos s ∧ info.y ∉ ys := by
  rw [mem_unspentInfos, mem_unspentInfos, Store.updateProofsState, Table.update_rows, List.mem_map]
  constructor
  · rintro ⟨⟨before, hbefore, rfl⟩, hunspent⟩
    split at hunspent
    next => exact absurd hunspent.2.2 hstate
    next hother =>
      rw [if_neg hother]
      exact ⟨⟨hbefore, hunspent⟩, hother⟩
  · rintro ⟨⟨hinfo, hunspent⟩, hother⟩
    exact ⟨⟨info, hinfo, if_neg hother⟩, hunspent⟩

/-- A mark changes nothing but states. -/
theorem mem_mark (h : info ∈ (s.updateProofsState ys state).proofs.rows) :
    ∃ before ∈ s.proofs.rows, before.y = info.y ∧ before.proof = info.proof ∧
      before.mintUrl = info.mintUrl := by
  rw [Store.updateProofsState, Table.update_rows, List.mem_map] at h
  obtain ⟨before, hbefore, rfl⟩ := h
  refine ⟨before, hbefore, ?_⟩
  split <;> exact ⟨rfl, rfl, rfl⟩

theorem mem_exchange (h : info ∈ (s.updateProofs infos ys).proofs.rows) :
    info ∈ infos ∨ info ∈ s.proofs.rows ∧ info.y ∉ ys := by
  obtain ⟨hrow, hkept⟩ := Table.mem_delete.mp h
  have hkept : info.y ∉ ys := by simpa using hkept
  rcases Table.mem_foldl_upsert hrow with hnew | ⟨hold, -⟩
  · exact .inl hnew
  · exact .inr ⟨hold, hkept⟩

/-- Marking the proofs of other mints changes nothing. -/
theorem unspentInfos_mark_other
    (h : ∀ info ∈ s.proofs.rows, info.y ∈ ys → info.mintUrl ≠ w.mintUrl) :
    w.unspentInfos (s.updateProofsState ys state) = w.unspentInfos s := by
  have hkeep : ∀ info ∈ s.proofs.rows,
      w.isUnspent (if info.y ∈ ys then info.setState state else info) = w.isUnspent info ∧
        (w.isUnspent info = true →
          (if info.y ∈ ys then info.setState state else info) = info) := by
    intro info hinfo
    split
    next hmem =>
      have hother := h info hinfo hmem
      have hbefore : w.isUnspent info = false :=
        Bool.eq_false_iff.mpr fun h => hother (isUnspent_iff.mp h).1
      have hafter : w.isUnspent (info.setState state) = false :=
        Bool.eq_false_iff.mpr fun h => hother (isUnspent_iff.mp h).1
      rw [hbefore, hafter]
      exact ⟨rfl, nofun⟩
    next => exact ⟨rfl, fun _ => rfl⟩
  have hkey (info : ProofInfo) :
      (if info.y ∈ ys then info.setState state else info).y = info.y := by
    split <;> rfl
  exact @Table.filter_update _ _ _ s.proofs _ hkey _ hkeep

/-- An unspent entry behind an exchange is a new one, or one from before that is not removed. -/
theorem mem_unspentInfos_exchange (h : info ∈ w.unspentInfos (s.updateProofs infos ys)) :
    info ∈ infos ∨ info ∈ w.unspentInfos s ∧ info.y ∉ ys := by
  obtain ⟨hrow, hunspent⟩ := mem_unspentInfos.mp h
  rcases mem_exchange hrow with hnew | ⟨hold, hkept⟩
  · exact .inl hnew
  · exact .inr ⟨mem_unspentInfos.mpr ⟨hold, hunspent⟩, hkept⟩

/-- Storing entries that do not count takes those from before out of the balance that they are put
in the place of. -/
theorem mem_unspentInfos_pending (hinfos : ∀ i ∈ infos, w.isUnspent i = false) :
    info ∈ w.unspentInfos (s.updateProofs infos []) ↔
      info ∈ w.unspentInfos s ∧ info.y ∉ infos.map ProofInfo.y := by
  rw [List.mem_map, not_exists]
  constructor
  · intro h
    obtain ⟨hrow, hunspent⟩ := List.mem_filter.mp h
    rcases Table.mem_foldl_upsert (Table.mem_delete.mp hrow).1 with hnew | ⟨hold, hne⟩
    · rw [hinfos info hnew] at hunspent
      cases hunspent
    · exact ⟨List.mem_filter.mpr ⟨hold, hunspent⟩, fun i hi => hne i hi.1 hi.2.symm⟩
  · rintro ⟨h, hne⟩
    obtain ⟨hold, hunspent⟩ := List.mem_filter.mp h
    refine List.mem_filter.mpr ⟨Table.mem_delete.mpr ⟨?_, by simp⟩, hunspent⟩
    exact Table.mem_foldl_upsert_of_key_ne hold fun i hi heq => hne i ⟨hi, heq.symm⟩

/-- Storing new entries adds those that count, and removes the ones that are exchanged. -/
theorem mem_unspentInfos_new (hnodup : (infos.map ProofInfo.y).Nodup)
    (hfresh : ∀ i ∈ infos, ∀ row ∈ s.proofs.rows, row.y ≠ i.y) (hkept : ∀ i ∈ infos, i.y ∉ ys) :
    info ∈ w.unspentInfos (s.updateProofs infos ys) ↔
      (info ∈ infos ∧ w.isUnspent info = true) ∨ (info ∈ w.unspentInfos s ∧ info.y ∉ ys) := by
  have happended : (s.proofs.insertAll infos).rows = s.proofs.rows ++ infos := by
    apply Table.foldl_upsert
    rw [List.map_append, List.nodup_append]
    refine ⟨s.proofs.nodup, hnodup, fun y hy y' hy' => ?_⟩
    obtain ⟨row, hrow, rfl⟩ := List.mem_map.mp hy
    obtain ⟨i, hi, rfl⟩ := List.mem_map.mp hy'
    exact hfresh i hi row hrow
  have hrows : info ∈ (s.updateProofs infos ys).proofs.rows ↔
      (info ∈ s.proofs.rows ∨ info ∈ infos) ∧ info.y ∉ ys := by
    rw [Store.updateProofs, ProofTable.removeAll, Table.mem_delete, happended, List.mem_append,
      List.contains_eq_mem, decide_eq_false_iff_not]
  rw [unspentInfos, unspentInfos, List.mem_filter, List.mem_filter, hrows]
  constructor
  · rintro ⟨⟨hold | hnew, hy⟩, hunspent⟩
    · exact .inr ⟨⟨hold, hunspent⟩, hy⟩
    · exact .inl ⟨hnew, hunspent⟩
  · rintro (⟨hnew, hunspent⟩ | ⟨⟨hold, hunspent⟩, hy⟩)
    · exact ⟨⟨.inr hnew, hkept info hnew⟩, hunspent⟩
    · exact ⟨⟨.inl hold, hy⟩, hunspent⟩

/-- Exchanging proofs of other mints for others of them changes nothing. -/
theorem unspentInfos_exchange_other (hinfos : ∀ info ∈ infos, info.mintUrl ≠ w.mintUrl)
    (hrows : ∀ row ∈ s.proofs.rows, row.mintUrl = w.mintUrl →
      row.y ∉ ys ∧ ∀ info ∈ infos, info.y ≠ row.y) :
    w.unspentInfos (s.updateProofs infos ys) = w.unspentInfos s := by
  have hunspent {info : ProofInfo} (h : w.isUnspent info = true) : info.mintUrl = w.mintUrl :=
    (isUnspent_iff.mp h).1
  have hnew : ∀ info ∈ infos, w.isUnspent info = false := fun info hinfo =>
    Bool.eq_false_iff.mpr fun h => hinfos info hinfo (hunspent h)
  have hplace : ∀ row ∈ s.proofs.rows, (∃ info ∈ infos, info.y = row.y) →
      w.isUnspent row = false := by
    rintro row hrow ⟨info, hinfo, hy⟩
    exact Bool.eq_false_iff.mpr fun h => (hrows row hrow (hunspent h)).2 info hinfo hy
  rw [unspentInfos, Store.updateProofs, ProofTable.removeAll, Table.filter_delete]
  · exact Table.filter_foldl_upsert hnew hplace
  · intro row hrow h
    rcases Table.mem_foldl_upsert hrow with hmem | ⟨hmem, -⟩
    · exact absurd h (Bool.eq_false_iff.mp (hnew row hmem))
    · simpa using (hrows row hmem (hunspent h)).1

end Balance

/-! ## What a swap does to the store -/

section Swaps

variable {w : Wallet} {call : SwapCall} {ys : List PublicKey} {s : Store}

/-- The swap reaches the reservation of the points of its proofs. -/
def Reserves (w : Wallet) (call : SwapCall) (ys : List PublicKey) : Prop :=
  w.refreshKeysets = .ok () ∧ ∃ id proofsTotal, w.beforeReserving call = .ok (id, proofsTotal, ys)

/-- A swap that succeeds exchanges its proofs for the ones that it sends and keeps. -/
structure Exchanges (w : Wallet) (call : SwapCall) (ys : List PublicKey) (s : Store)
    (result : Swapped) (sendInfos keepInfos : List ProofInfo) : Prop where
  swapped : (w.swapProofs call s).1 = .ok result
  sent : (result.send.getD []).mapM (w.proofInfo .reserved) = .ok sendInfos
  kept : result.keep.mapM (w.proofInfo .unspent) = .ok keepInfos
  stored : (w.swap call s).2.proofs =
    ((s.updateProofsState ys .reserved).updateProofs (sendInfos ++ keepInfos) ys).proofs

/-- Without a reservation a swap changes nothing. -/
theorem swap_aborts (h : ∀ ys, ¬ w.Reserves call ys) : (w.swap call).Aborts s := by
  apply Proc.Aborts.bind
  apply Proc.aborts_lift_bind
  intro _ hrefresh
  apply Proc.Aborts.bind
  apply Proc.aborts_lift_bind
  rintro ⟨id, proofsTotal, ys⟩ hbefore
  exact absurd ⟨hrefresh, id, proofsTotal, hbefore⟩ (h ys)

theorem createSwap_eq {id : Id} {proofsTotal : Amount}
    (h : w.beforeReserving call = .ok (id, proofsTotal, ys)) :
    w.createSwap call s =
      w.behindReserving call id proofsTotal (s.updateProofsState ys .reserved) :=
  (Proc.lift_bind_of_ok h).trans (Proc.bind_of_ok (Proc.write_run _ s))

/-- Up to the new entries a swap with a reservation changes nothing else. -/
theorem proofs_swapProofs (h : w.Reserves call ys) :
    (w.swapProofs call s).2.proofs = (s.updateProofsState ys .reserved).proofs := by
  obtain ⟨hrefresh, id, proofsTotal, hbefore⟩ := h
  have hkeeps : (w.createSwap call s).2.proofs = (s.updateProofsState ys .reserved).proofs := by
    rw [createSwap_eq hbefore]
    exact keeps_proofs_behindReserving w call id proofsTotal _
  unfold swapProofs
  rw [Proc.lift_bind_of_ok hrefresh, ← hkeeps]
  apply Proc.Keeps.after
  intro pre
  apply Proc.Keeps.bind (Proc.Keeps.lift _)
  intro signatures
  apply Proc.Keeps.bind (Proc.Keeps.lift _)
  intro feeAndAmounts
  apply Proc.Keeps.bind (Proc.Keeps.lift _)
  intro constructed
  apply Proc.Keeps.bind (Proc.Keeps.lift _)
  rintro ⟨send, keep⟩
  exact Proc.Keeps.pure _

/-- A swap with a reservation fails and leaves its proofs reserved, or exchanges them. -/
theorem swap_of_reserves (h : w.Reserves call ys) :
    ((∀ send, (w.swap call s).1 ≠ .ok send) ∧
        (w.swap call s).2.proofs = (s.updateProofsState ys .reserved).proofs) ∨
      ∃ result sendInfos keepInfos, (w.swap call s).1 = .ok result.send ∧
        w.Exchanges call ys s result sendInfos keepInfos := by
  have hproofs : (w.swapProofs call s).2.proofs = _ := proofs_swapProofs h
  obtain ⟨-, id, proofsTotal, hbefore⟩ := h
  have hys := (beforeReserving_spec hbefore).2.2
  by_cases hok : ∃ send s', w.swap call s = (.ok send, s')
  · obtain ⟨send, s', hswap⟩ := hok
    obtain ⟨result, s₁, hresult, hrest⟩ := Proc.bind_ok.mp hswap
    rw [hresult] at hproofs
    simp only [Proc.lift_bind_ok, hys] at hrest
    obtain ⟨sendInfos, hsent, keepInfos, hkept, _, hsame, hrest⟩ := hrest
    cases hsame
    rw [Proc.bind_of_ok (Proc.write_run _ _)] at hrest
    cases hrest
    refine .inr ⟨result, sendInfos, keepInfos, by rw [hswap], by rw [hresult], hsent, hkept, ?_⟩
    rw [hswap]
    exact congrArg (fun proofs : ProofTable =>
      (proofs.insertAll (sendInfos ++ keepInfos)).removeAll ys) hproofs
  · have hnone : ∀ send, (w.swap call s).1 ≠ .ok send := fun send h =>
      hok ⟨send, (w.swap call s).2, Prod.ext h rfl⟩
    refine .inl ⟨hnone, ?_⟩
    rw [← hproofs]
    unfold swap at hok ⊢
    rcases hrun : w.swapProofs call s with ⟨result | e | _, s₁⟩
    · rw [Proc.bind_of_ok hrun] at hok ⊢
      suffices h : Proc.Aborts _ s₁ from congrArg Store.proofs h.1
      apply Proc.aborts_lift_bind
      intro sendInfos hsent
      apply Proc.aborts_lift_bind
      intro keepInfos hkept
      apply Proc.aborts_lift_bind
      intro deletedYs hdeleted
      rw [Proc.lift_bind_of_ok hsent, Proc.lift_bind_of_ok hkept,
        Proc.lift_bind_of_ok hdeleted] at hok
      exact absurd ⟨result.send, _, rfl⟩ hok
    · rw [Proc.bind_of_err hrun]
    · rw [Proc.bind_of_panic hrun]

end Swaps

end Wallet

/-- The wallets of several mints, at most one for the url of a mint. -/
structure MultiMintWallet where
  wallets : Table Wallet.mintUrl

end Cdk
