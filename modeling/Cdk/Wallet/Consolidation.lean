import Cdk.Wallet.Balances
import Cdk.Wallet.Reservations

/-!
# Consolidating the proofs of all mints

A wallet of several mints swaps all unspent proofs of each mint for one set, and
asks the swap for their whole amount. What a swap is asked for it stores as
reserved, for sending, and a swap that fails for its fee has reserved its inputs
before.
-/

namespace Cdk

open Lib

open Selection (worth)

namespace Wallet

section Operations

variable (w : Wallet)

/-- The swap of all unspent proofs. -/
def consolidatingSwap (proofsAmount : Amount) (proofs : List Proof) : SwapCall :=
  ⟨some proofsAmount, .none, proofs, none, false⟩

/-- A round of the loop of `MultiMintWallet::consolidate`. -/
def consolidate (totalConsolidated : Amount) : Proc Store Error Amount := do
  let proofs ← .read fun s => .ok (w.getUnspentProofs s)
  if 1 < proofs.length then do
    let proofsAmount ← .lift (total proofs)
    let swapped ← Proc.attempt (w.swap (consolidatingSwap proofsAmount proofs))
    if swapped.isSome then .lift (totalConsolidated.add proofsAmount)
    else pure totalConsolidated
  else pure totalConsolidated

/-- A swap up to its request. -/
def requestSwap (call : SwapCall) : Proc Store Error PreSwap := do
  let _ ← Proc.lift w.refreshKeysets
  w.createSwap call

end Operations

end Wallet

/-- The loop of `MultiMintWallet::consolidate`. -/
def consolidateAll : List Wallet → Amount → Proc Wallet.Store Wallet.Error Amount
  | [], totalConsolidated => pure totalConsolidated
  | w :: rest, totalConsolidated => do
      let totalConsolidated ← w.consolidate totalConsolidated
      consolidateAll rest totalConsolidated

/-- `MultiMintWallet::consolidate`. -/
def MultiMintWallet.consolidate (m : MultiMintWallet) : Proc Wallet.Store Wallet.Error Amount :=
  consolidateAll m.wallets.rows .zero

/-! ## What a consolidation should do -/

namespace Wallet

section Kept

variable (w : Wallet) (s : Store)

/-- The swap that a mint gets at its turn. -/
structure SwapsFor (amount : Amount) (call : SwapCall) : Prop where
  several : 1 < (w.getUnspentProofs s).length
  total_eq : total (w.getUnspentProofs s) = .ok amount
  call_eq : call = consolidatingSwap amount (w.getUnspentProofs s)

/-- How the balance of a mint should change, by how its swap ends. -/
structure BalanceKept (before after : Nat) : Prop where
  idle : (∀ amount call, ¬ w.SwapsFor s amount call) → after = before
  swapped : ∀ amount call, w.SwapsFor s amount call → ∀ send, (w.swap call s).1 = .ok send →
    ∀ fee, w.getProofsFee call.proofs = .ok fee → after + fee.toNat = before
  unsent : ∀ amount call, w.SwapsFor s amount call → (w.requestSwap call).Fails s → after = before

/-- A swap that reaches its reservation is for proofs that are worth nothing, or fails only behind
its request. -/
def NothingAtStake : Prop :=
  ∀ amount call, w.SwapsFor s amount call → w.refreshKeysets = .ok () → ∀ id proofsTotal ys,
    w.beforeReserving call = .ok (id, proofsTotal, ys) → amount = .zero ∨
      ¬ SwapFails w call id proofsTotal (s.updateProofsState ys .reserved) ∧
        ∀ send, (w.swap call s).1 ≠ .ok send

/-- The point of a secret that the wallet derives for the active keyset of its mint. -/
def Derives (y : PublicKey) : Prop :=
  ∃ id counter secret r, w.fetchActiveKeyset = .ok id ∧ w.seedSecret id counter = some (secret, r) ∧
    w.env.hashToCurve (utf8 secret) = some y

end Kept

end Wallet

namespace MultiMintWallet

section Kept

variable (m : MultiMintWallet) (s : Wallet.Store)

/-- Every balance is kept: that of a mint whose turn comes as its swap ends, and the others. -/
def ConsolidationKeeps : Prop :=
  ∀ before w after, m.wallets.rows = before ++ w :: after →
    (∀ total s₁, consolidateAll before .zero s = (.ok total, s₁) →
      w.BalanceKept s₁ (w.unspentTotal s) (w.unspentTotal (m.consolidate s).2)) ∧
    ((∀ total, (consolidateAll before .zero s).1 ≠ .ok total) →
      w.unspentTotal (m.consolidate s).2 = w.unspentTotal s)

/-- What is taken for granted of the mints: secrets from the seed are no texts of conditions, outputs
are signed for their amounts, and the secrets of different mints have different points. -/
structure Apart : Prop where
  plain : ∀ w ∈ m.wallets.rows, ∀ n, w.env.parseSecret (hexDigits 64 n) = none
  signed : ∀ w ∈ m.wallets.rows, ∀ request signatures, w.postSwap request = .ok signatures →
    signatures.map BlindSignature.amount = request.outputs.map BlindedMessage.amount
  derived : ∀ w ∈ m.wallets.rows, ∀ w' ∈ m.wallets.rows, ∀ y, w.Derives y → w'.Derives y →
    w.mintUrl = w'.mintUrl

/-- Stored proofs are filed under their points, and the points of a mint's secrets are its own. -/
structure Tidy : Prop where
  filed : ∀ w ∈ m.wallets.rows, w.Filed s
  own : ∀ w ∈ m.wallets.rows, ∀ info ∈ s.proofs.rows, w.Derives info.y → info.mintUrl = w.mintUrl

end Kept

end MultiMintWallet

namespace Wallet

/-! ## The new proofs -/

section New

variable {w : Wallet} {id : Id} {counter : Nat} {amounts : List Amount} {preMints : List PreMint}
  {call : SwapCall} {pre : PreSwap} {result : Swapped} {sendInfos keepInfos : List ProofInfo}
  {ys : List PublicKey} {s s' : Store}

theorem secret_of_deriveAll (h : w.deriveAll id counter amounts = .ok preMints) :
    ∀ p ∈ preMints, ∃ c r, w.seedSecret id c = some (p.secret, r) := by
  induction amounts generalizing counter preMints with
  | nil =>
      cases h
      exact nofun
  | cons amount rest ih =>
      simp only [deriveAll, preMint, Outcome.bind_eq_ok, Outcome.ofOption_eq_ok] at h
      obtain ⟨first, ⟨⟨secret, r⟩, hdrawn, blinded, -, hfirst⟩, next, -, others, hothers, h⟩ := h
      cases hfirst
      cases h
      exact List.forall_mem_cons.mpr ⟨⟨counter, r, hdrawn⟩, ih hothers⟩

theorem secret_of_preMintsFromSeed {amount : Amount} {target : Counters.SplitTarget}
    {feeAndAmounts : Counters.FeeAndAmounts}
    (h : w.preMintsFromSeed id counter amount target feeAndAmounts = .ok preMints) :
    ∀ p ∈ preMints, ∃ c r, w.seedSecret id c = some (p.secret, r) := by
  rw [preMintsFromSeed, Outcome.bind_eq_ok] at h
  obtain ⟨parts, -, h⟩ := h
  exact secret_of_deriveAll h

/-- A swap without conditions derives all its secrets. -/
theorem secret_of_createSwap (hconditions : call.conditions = none)
    (h : w.createSwap call s = (.ok pre, s')) :
    ∀ p ∈ pre.preMints, ∃ c r, w.seedSecret pre.keysetId c = some (p.secret, r) := by
  obtain ⟨proofsTotal, ys, before, feeAndAmounts, sendAmount, change, target, needed, start, next,
    preMints, changePreMints, -, -, -, -, -, -, -, -, hpreMints, -, hchangePreMints, hsorted, -⟩ :=
    createSwap_eq_ok hconditions h
  intro p hp
  have hp : p ∈ preMints ++ changePreMints :=
    (List.perm_insertionSort _ _).mem_iff.mp (hsorted ▸ hp)
  rcases List.mem_append.mp hp with hp | hp
  · exact secret_of_preMintsFromSeed hpreMints p hp
  · exact secret_of_preMintsFromSeed hchangePreMints p hp

/-- What a swap without conditions makes has points of the wallet. -/
theorem derives_of_swapProofs (hplain : ∀ n, w.env.parseSecret (hexDigits 64 n) = none)
    (hconditions : call.conditions = none) (h : w.swapProofs call s = (.ok result, s')) :
    ∀ p ∈ result.send.getD [] ++ result.keep, ∀ y, p.y w.env = some y → w.Derives y := by
  obtain ⟨parts, signatures, hsteps⟩ := swapProofs_spec hplain hconditions h
  obtain ⟨hpre, hsecrets⟩ := secrets_of_swapProofs hplain hconditions h
  intro p hp y hy
  have hmem := hsecrets.mem_iff.mp (List.mem_map_of_mem hp)
  obtain ⟨preMint, hpreMint, heq⟩ := List.mem_map.mp hmem
  obtain ⟨c, r, hderived⟩ := secret_of_createSwap hconditions hpre preMint hpreMint
  refine ⟨result.pre.keysetId, c, p.secret, r, hsteps.created.fetched, ?_, hy⟩
  rw [← heq]
  exact hderived

/-- A swap of proofs for their whole amount succeeds only without a fee, and keeps nothing. -/
theorem worthless_of_swapProofs (hplain : ∀ n, w.env.parseSecret (hexDigits 64 n) = none)
    (hsigned : ∀ request signatures, w.postSwap request = .ok signatures →
      signatures.map BlindSignature.amount = request.outputs.map BlindedMessage.amount)
    {amount : Amount} (hswaps : w.SwapsFor s amount call)
    (h : w.swapProofs call s = (.ok result, s')) :
    w.getProofsFee call.proofs = .ok .zero ∧ worth result.keep = 0 := by
  obtain ⟨-, hamount, rfl⟩ := hswaps
  rw [total_eq_ok] at hamount
  obtain ⟨parts, signatures, hsteps⟩ := swapProofs_spec hplain rfl h
  have hcreated := hsteps.created
  obtain ⟨redeem, hredeem, hmore⟩ := hcreated.sent
  obtain ⟨more, hsome, hmore⟩ := hmore amount rfl
  cases hredeem
  -- all of the inputs is asked for, so that nothing is left for change and a fee
  have hinputs := hcreated.inputs
  rw [hsome] at hinputs
  change worth (w.getUnspentProofs s) = more.toNat + _ + _ at hinputs
  change more.toNat = amount.toNat + 0 at hmore
  have hmoreEq : more = amount := Amount.ext_toNat (by omega)
  have hfee : result.pre.fee = .zero := Amount.ext_toNat (show result.pre.fee.toNat = 0 by omega)
  refine ⟨?_, ?_⟩
  · simp only [swapProofs, Proc.lift_bind_ok, Proc.bind_ok (x := w.createSwap _)] at h
    obtain ⟨_, -, pre, s₁, hpre, _, -, _, -, _, -, ⟨send, keep⟩, -, h⟩ := h
    cases h
    obtain ⟨_, _, _, _, _, _, _, _, _, _, _, _, -, hcharged, -⟩ := createSwap_eq_ok rfl hpre
    rw [hcharged]
    exact congrArg Outcome.ok hfee
  · have hamounts : result.constructed.map Proof.amount =
        result.pre.preMints.map PreMint.amount := by
      rw [hsteps.amounts, hsigned _ _ hsteps.posted, hcreated.requested, List.map_map]
      exact List.map_congr_left fun p hp => (hcreated.seeded p hp).message
    rcases hsteps.given with ⟨hnone, -⟩ | ⟨a, amountSplit, ha, hsplit, -, hkeep⟩
    · cases hnone
    · cases ha
      have hparts := hcreated.split
      rw [hsome, Option.getD_some, hmoreEq] at hparts
      cases hsplit.symm.trans hparts
      have hcounts : ∀ part, part ≠ .zero → parts.sendParts.count part ≤
          (result.constructed.reverse.map Proof.amount).count part := by
        intro part _
        rw [((List.reverse_perm result.constructed).map Proof.amount).count_eq, hamounts,
          hcreated.perm.count_eq, List.count_append]
        exact Nat.le_add_right _ _
      have hsent := (worth_takeParts parts.sendParts result.constructed.reverse).2.mpr hcounts
      have hall := Selection.worth_perm
        (takeParts_perm parts.sendParts result.constructed.reverse)
      have hworth : worth result.constructed.reverse =
          Amount.total parts.sendParts + Amount.total parts.changeParts := by
        rw [Selection.worth_perm (List.reverse_perm result.constructed), worth, hamounts,
          Amount.total_perm hcreated.perm, Amount.total_append]
      have hchange := hcreated.changeParts
      rw [Selection.worth_append] at hall
      rw [hkeep]
      omega

end New

/-! ## The turn of one mint -/

section Turn

variable {w v : Wallet} {amount : Amount} {call : SwapCall} {ys : List PublicKey}
  {result : Swapped} {sendInfos keepInfos : List ProofInfo} {s : Store}

/-- What the consolidating swap reserves are the unspent proofs. -/
theorem ys_of_reserves (hfiled : w.Filed s) (hswaps : w.SwapsFor s amount call)
    (h : w.Reserves call ys) : ys = (w.unspentInfos s).map ProofInfo.y := by
  obtain ⟨-, id, proofsTotal, hbefore⟩ := h
  have hys := (beforeReserving_spec hbefore).2.2
  rw [hswaps.call_eq] at hys
  exact Outcome.ok.inj (hys.symm.trans (ys_getUnspentProofs hfiled))

/-- The new entries are the wallet's. -/
theorem mem_new_infos (hplain : ∀ n, w.env.parseSecret (hexDigits 64 n) = none)
    (hconditions : call.conditions = none)
    (h : w.Exchanges call ys s result sendInfos keepInfos) :
    ∀ info ∈ sendInfos ++ keepInfos, info.mintUrl = w.mintUrl ∧
      info.proof.toProof.y w.env = some info.y ∧ w.Derives info.y := by
  have hderives := derives_of_swapProofs hplain hconditions
    (Prod.ext h.swapped rfl : w.swapProofs call s = (.ok result, (w.swapProofs call s).2))
  have hentry (state : State) (proofs : List Proof) (infos : List ProofInfo)
      (hproofs : ∀ p ∈ proofs, p ∈ result.send.getD [] ++ result.keep)
      (hinfos : proofs.mapM (w.proofInfo state) = .ok infos) : ∀ info ∈ infos,
        info.mintUrl = w.mintUrl ∧ info.proof.toProof.y w.env = some info.y ∧
          w.Derives info.y := by
    intro info hinfo
    obtain ⟨p, hp, hmade⟩ := Outcome.exists_of_mem_mapM hinfos hinfo
    obtain ⟨hy, hproof, hmint, -⟩ := proofInfo_eq_ok hmade
    exact ⟨hmint, hproof ▸ hy, hderives p (hproofs p hp) info.y hy⟩
  intro info hinfo
  rcases List.mem_append.mp hinfo with hinfo | hinfo
  · exact hentry _ _ _ (fun p hp => List.mem_append_left _ hp) h.sent info hinfo
  · exact hentry _ _ _ (fun p hp => List.mem_append_right _ hp) h.kept info hinfo

/-- Behind its reservation a consolidating swap leaves its mint without a balance. -/
theorem unspentTotal_swap (hfiled : w.Filed s)
    (hplain : ∀ n, w.env.parseSecret (hexDigits 64 n) = none)
    (hsigned : ∀ request signatures, w.postSwap request = .ok signatures →
      signatures.map BlindSignature.amount = request.outputs.map BlindedMessage.amount)
    (hswaps : w.SwapsFor s amount call) (hreserves : w.Reserves call ys) :
    w.unspentTotal (w.swap call s).2 = 0 := by
  have hmarked : ∀ info, info ∉ w.unspentInfos (s.updateProofsState ys .reserved) := by
    intro info hinfo
    have hstate : State.reserved ≠ .unspent := by decide
    obtain ⟨hbefore, hout⟩ := (mem_unspentInfos_mark hstate).mp hinfo
    rw [ys_of_reserves hfiled hswaps hreserves] at hout
    exact hout (List.mem_map_of_mem hbefore)
  rw [unspentTotal_eq_zero]
  intro info hinfo
  rcases swap_of_reserves (s := s) hreserves with
    ⟨-, hproofs⟩ | ⟨result, sendInfos, keepInfos, -, hexchanges⟩
  · rw [unspentInfos_congr hproofs] at hinfo
    exact absurd hinfo (hmarked info)
  · rw [unspentInfos_congr hexchanges.stored] at hinfo
    have hstate := (mem_unspentInfos.mp hinfo).2.2.2
    rcases mem_unspentInfos_exchange hinfo with hnew | ⟨hold, -⟩
    · rcases List.mem_append.mp hnew with hsent | hkept
      · obtain ⟨p, -, hmade⟩ := Outcome.exists_of_mem_mapM hexchanges.sent hsent
        rw [(proofInfo_eq_ok hmade).2.2.2] at hstate
        cases hstate
      · obtain ⟨p, hp, hmade⟩ := Outcome.exists_of_mem_mapM hexchanges.kept hkept
        have hzero := (worthless_of_swapProofs hplain hsigned hswaps
          (Prod.ext hexchanges.swapped rfl : w.swapProofs call s = (.ok result, _))).2
        rw [worth, total_eq_zero, List.forall_mem_map] at hzero
        rw [← hzero p hp, ← (proofInfo_eq_ok hmade).2.1]
    · exact absurd hold (hmarked info)

/-- The balance of another mint stays as it is. -/
theorem unspentInfos_swap_other (hfiled : w.Filed s)
    (hown : ∀ info ∈ s.proofs.rows, w.Derives info.y → info.mintUrl = w.mintUrl)
    (hplain : ∀ n, w.env.parseSecret (hexDigits 64 n) = none)
    (hne : v.mintUrl ≠ w.mintUrl) (hswaps : w.SwapsFor s amount call) :
    v.unspentInfos (w.swap call s).2 = v.unspentInfos s := by
  by_cases hreserves : ∃ ys, w.Reserves call ys
  · obtain ⟨ys, hreserves⟩ := hreserves
    have hys := ys_of_reserves hfiled hswaps hreserves
    have hmine : ∀ row ∈ s.proofs.rows, row.y ∈ ys → row.mintUrl = w.mintUrl := by
      intro row hrow hy
      rw [hys] at hy
      obtain ⟨info, hinfo, hsame⟩ := List.mem_map.mp hy
      obtain ⟨hmem, hmint, -⟩ := mem_unspentInfos.mp hinfo
      rwa [← Table.eq_of_key hmem hrow hsame]
    have hmark : v.unspentInfos (s.updateProofsState ys .reserved) = v.unspentInfos s :=
      unspentInfos_mark_other fun row hrow hy heq => hne ((hmine row hrow hy).symm.trans heq).symm
    rcases swap_of_reserves (s := s) hreserves with
      ⟨-, hproofs⟩ | ⟨result, sendInfos, keepInfos, -, hexchanges⟩
    · rw [unspentInfos_congr hproofs, hmark]
    · have hnew := mem_new_infos hplain (by rw [hswaps.call_eq]; rfl) hexchanges
      rw [unspentInfos_congr hexchanges.stored, unspentInfos_exchange_other, hmark]
      · intro info hinfo heq
        exact hne (heq.symm.trans (hnew info hinfo).1)
      · intro row hrow hmint
        obtain ⟨before, hbefore, hy, -, hsame⟩ := mem_mark hrow
        refine ⟨fun hin => ?_, fun info hinfo heq => ?_⟩
        · exact hne (hmint.symm.trans (hsame.symm.trans (hmine before hbefore (hy ▸ hin))))
        · have hderives : w.Derives before.y := hy ▸ heq ▸ (hnew info hinfo).2.2
          exact hne (hmint.symm.trans (hsame.symm.trans (hown before hbefore hderives)))
  · rw [(swap_aborts (not_exists.mp hreserves)).1]

/-- The stored proofs behind a consolidating swap are those from before and new ones of the mint. -/
theorem mem_swap (hplain : ∀ n, w.env.parseSecret (hexDigits 64 n) = none)
    (hswaps : w.SwapsFor s amount call) {info : ProofInfo}
    (hinfo : info ∈ (w.swap call s).2.proofs.rows) :
    (info.mintUrl = w.mintUrl ∧ info.proof.toProof.y w.env = some info.y ∧ w.Derives info.y) ∨
      ∃ before ∈ s.proofs.rows, before.y = info.y ∧ before.proof = info.proof ∧
        before.mintUrl = info.mintUrl := by
  by_cases hreserves : ∃ ys, w.Reserves call ys
  · obtain ⟨ys, hreserves⟩ := hreserves
    rcases swap_of_reserves (s := s) hreserves with
      ⟨-, hproofs⟩ | ⟨result, sendInfos, keepInfos, -, hexchanges⟩
    · rw [hproofs] at hinfo
      exact .inr (mem_mark hinfo)
    · rw [hexchanges.stored] at hinfo
      rcases mem_exchange hinfo with hnew | ⟨hold, -⟩
      · exact .inl (mem_new_infos hplain (by rw [hswaps.call_eq]; rfl) hexchanges info hnew)
      · exact .inr (mem_mark hold)
  · rw [(swap_aborts (not_exists.mp hreserves)).1] at hinfo
    exact .inr ⟨info, hinfo, rfl, rfl, rfl⟩

theorem SwapsFor.unique {amount' : Amount} {call' : SwapCall} (h : w.SwapsFor s amount call)
    (h' : w.SwapsFor s amount' call') : amount' = amount ∧ call' = call := by
  have hamount : amount' = amount := Outcome.ok.inj (h'.total_eq.symm.trans h.total_eq)
  refine ⟨hamount, ?_⟩
  rw [h.call_eq, h'.call_eq, hamount]

/-- At its turn a mint gets its swap. -/
theorem store_consolidate (hswaps : w.SwapsFor s amount call) (totalConsolidated : Amount) :
    (w.consolidate totalConsolidated s).2 = (w.swap call s).2 := by
  unfold consolidate
  rw [Proc.read_bind_of_ok (g := fun s => .ok (w.getUnspentProofs s)) rfl, if_pos hswaps.several,
    Proc.lift_bind_of_ok hswaps.total_eq, ← hswaps.call_eq]
  refine Eq.trans ?_ (Proc.attempt_store (w.swap call) s)
  refine @Proc.Keeps.after Store Store Error _ _ _ _ (fun s => s) (fun swapped => ?_) s
  split
  · exact Proc.Keeps.lift _
  · exact Proc.Keeps.pure _

/-- A mint without a swap keeps its proofs. -/
theorem store_consolidate_idle (h : ∀ amount call, ¬ w.SwapsFor s amount call)
    (totalConsolidated : Amount) : (w.consolidate totalConsolidated s).2 = s := by
  unfold consolidate
  rw [Proc.read_bind_of_ok (g := fun s => .ok (w.getUnspentProofs s)) rfl]
  split
  next hseveral =>
    refine (Proc.aborts_lift_bind fun amount hamount => ?_ : Proc.Aborts _ s).1
    exact absurd ⟨hseveral, hamount, rfl⟩ (h amount _)
  next => rfl

/-- A mint keeps its balance as it should exactly if nothing is at stake. -/
theorem balanceKept_iff (hfiled : w.Filed s)
    (hplain : ∀ n, w.env.parseSecret (hexDigits 64 n) = none)
    (hsigned : ∀ request signatures, w.postSwap request = .ok signatures →
      signatures.map BlindSignature.amount = request.outputs.map BlindedMessage.amount)
    (totalConsolidated : Amount) :
    w.BalanceKept s (w.unspentTotal s) (w.unspentTotal (w.consolidate totalConsolidated s).2) ↔
      w.NothingAtStake s := by
  by_cases hturn : ∃ amount call, w.SwapsFor s amount call
  · obtain ⟨amount, call, hswaps⟩ := hturn
    have hamount : amount.toNat = w.unspentTotal s := total_eq_ok.mp hswaps.total_eq
    rw [store_consolidate hswaps]
    by_cases hreserves : ∃ ys, w.Reserves call ys
    · obtain ⟨ys, hreserves⟩ := hreserves
      rw [unspentTotal_swap hfiled hplain hsigned hswaps hreserves]
      obtain ⟨hrefresh, id, proofsTotal, hbefore⟩ := hreserves
      have hfee : ∀ send, (w.swap call s).1 = .ok send →
          w.getProofsFee call.proofs = .ok .zero := by
        intro send hsend
        obtain ⟨result, s₁, hresult, -⟩ := swap_eq_ok
          (Prod.ext hsend rfl : w.swap call s = (.ok send, (w.swap call s).2))
        exact (worthless_of_swapProofs hplain hsigned hswaps hresult).1
      constructor
      · rintro hkept amount' call' hswaps' - id' proofsTotal' ys' hbefore'
        obtain ⟨rfl, rfl⟩ := hswaps.unique hswaps'
        cases hbefore.symm.trans hbefore'
        rw [or_iff_not_imp_left]
        intro hpositive
        refine ⟨fun hfails => ?_, fun send hsend => ?_⟩
        · have hrequest : (w.requestSwap call').Fails s := by
            refine Proc.fails_of_lift hrefresh ?_
            rw [Proc.Fails, createSwap_eq hbefore]
            exact fails_behindReserving.mpr hfails
          have hzero := hkept.unsent amount' call' hswaps hrequest
          exact hpositive (Amount.ext_toNat (hamount.trans hzero.symm))
        · have hzero := hkept.swapped amount' call' hswaps send hsend .zero (hfee send hsend)
          exact hpositive (Amount.ext_toNat (hamount.trans hzero.symm))
      · intro hnothing
        refine ⟨fun hidle => absurd hswaps (hidle amount call), ?_, ?_⟩
        · intro amount' call' hswaps' send hsend fee hcharged
          obtain ⟨-, rfl⟩ := hswaps.unique hswaps'
          cases hcharged.symm.trans (hfee send hsend)
          rcases hnothing amount call' hswaps hrefresh id proofsTotal ys hbefore with
            rfl | ⟨-, hnone⟩
          · exact hamount
          · exact absurd hsend (hnone send)
        · intro amount' call' hswaps' hrequest
          obtain ⟨-, rfl⟩ := hswaps.unique hswaps'
          rcases hnothing amount call' hswaps hrefresh id proofsTotal ys hbefore with
            rfl | ⟨hsent, -⟩
          · exact hamount
          · rcases Proc.fails_lift_bind.mp hrequest with hfirst | ⟨_, -, hcreate⟩
            · rw [hrefresh] at hfirst
              exact absurd hfirst (Outcome.not_fails_ok _)
            · rw [Proc.Fails, createSwap_eq hbefore] at hcreate
              exact absurd (fails_behindReserving.mp hcreate) hsent
    · have haborts := swap_aborts (s := s) (not_exists.mp hreserves)
      rw [haborts.1]
      constructor
      · rintro - amount' call' hswaps' hrefresh id proofsTotal ys hbefore
        obtain ⟨-, rfl⟩ := hswaps.unique hswaps'
        exact absurd ⟨ys, hrefresh, id, proofsTotal, hbefore⟩ hreserves
      · rintro -
        refine ⟨fun _ => rfl, ?_, fun _ _ _ _ => rfl⟩
        intro amount' call' hswaps' send hsend
        obtain ⟨-, rfl⟩ := hswaps.unique hswaps'
        exact absurd hsend (haborts.2 send)
  · have hidle : ∀ amount call, ¬ w.SwapsFor s amount call := fun amount call h =>
      hturn ⟨amount, call, h⟩
    rw [store_consolidate_idle hidle]
    constructor
    · rintro - amount call hswaps
      exact absurd hswaps (hidle amount call)
    · rintro -
      exact ⟨fun _ => rfl, fun amount call hswaps => absurd hswaps (hidle amount call),
        fun _ _ _ _ => rfl⟩

end Turn

end Wallet

/-! ## The turns of all mints -/

namespace MultiMintWallet

section Turns

variable {m : MultiMintWallet} {w v : Wallet} {ws before after : List Wallet} {s : Wallet.Store}

/-- A turn keeps the proofs of all mints in order. -/
theorem Tidy.consolidate (hm : m.Apart) (hs : m.Tidy s) (hw : w ∈ m.wallets.rows)
    (totalConsolidated : Amount) : m.Tidy (w.consolidate totalConsolidated s).2 := by
  by_cases hturn : ∃ amount call, w.SwapsFor s amount call
  · obtain ⟨amount, call, hswaps⟩ := hturn
    rw [Wallet.store_consolidate hswaps]
    have hrows {info : ProofInfo} := @Wallet.mem_swap w amount call s (hm.plain w hw) hswaps info
    refine ⟨fun v hv info hinfo hmint => ?_, fun v hv info hinfo hderives => ?_⟩
    · rcases hrows hinfo with ⟨hmine, hy, -⟩ | ⟨old, hold, hy, hproof, hsame⟩
      · rwa [Table.eq_of_key hv hw (hmint.symm.trans hmine)]
      · rw [← hy, ← hproof]
        exact hs.filed v hv old hold (hsame.trans hmint)
    · rcases hrows hinfo with ⟨hmine, -, hown⟩ | ⟨old, hold, hy, -, hsame⟩
      · exact hmine.trans (hm.derived w hw v hv info.y hown hderives)
      · rw [← hsame]
        exact hs.own v hv old hold (hy ▸ hderives)
  · rwa [Wallet.store_consolidate_idle fun amount call h => hturn ⟨amount, call, h⟩]

/-- The turn of a mint changes the balance of no other. -/
theorem unspentInfos_consolidate_other (hm : m.Apart) (hs : m.Tidy s) (hw : w ∈ m.wallets.rows)
    (hne : v.mintUrl ≠ w.mintUrl) (totalConsolidated : Amount) :
    v.unspentInfos (w.consolidate totalConsolidated s).2 = v.unspentInfos s := by
  by_cases hturn : ∃ amount call, w.SwapsFor s amount call
  · obtain ⟨amount, call, hswaps⟩ := hturn
    rw [Wallet.store_consolidate hswaps]
    exact Wallet.unspentInfos_swap_other (hs.filed w hw) (hs.own w hw) (hm.plain w hw) hne hswaps
  · rw [Wallet.store_consolidate_idle fun amount call h => hturn ⟨amount, call, h⟩]

/-- Turns keep the proofs of all mints in order, and change the balance of no mint without one. -/
theorem turns (hm : m.Apart) (hs : m.Tidy s) (hws : ∀ w ∈ ws, w ∈ m.wallets.rows)
    (totalConsolidated : Amount) :
    m.Tidy (consolidateAll ws totalConsolidated s).2 ∧
      ∀ v : Wallet, (∀ w ∈ ws, v.mintUrl ≠ w.mintUrl) →
        v.unspentInfos (consolidateAll ws totalConsolidated s).2 = v.unspentInfos s := by
  induction ws generalizing totalConsolidated s with
  | nil => exact ⟨hs, fun _ _ => rfl⟩
  | cons w rest ih =>
      obtain ⟨hw, hrest⟩ := List.forall_mem_cons.mp hws
      have htidy := hs.consolidate hm hw totalConsolidated
      have hother (v : Wallet) (hne : v.mintUrl ≠ w.mintUrl) :=
        unspentInfos_consolidate_other hm hs hw hne totalConsolidated
      rw [consolidateAll]
      rcases Proc.store_bind_cases (w.consolidate totalConsolidated) (consolidateAll rest) s with
        hstop | ⟨next, hnext⟩
      · rw [hstop]
        exact ⟨htidy, fun v hv => hother v (hv w List.mem_cons_self)⟩
      · obtain ⟨hkept, hsame⟩ := ih htidy hrest next
        rw [hnext]
        refine ⟨hkept, fun v hv => ?_⟩
        rw [hsame v fun w' hw' => hv w' (List.mem_cons_of_mem w hw')]
        exact hother v (hv w List.mem_cons_self)

theorem consolidateAll_append (totalConsolidated : Amount) :
    consolidateAll (before ++ after) totalConsolidated s =
      (consolidateAll before totalConsolidated >>= consolidateAll after) s := by
  induction before generalizing totalConsolidated s with
  | nil => rfl
  | cons w rest ih =>
      rw [List.cons_append, consolidateAll, consolidateAll]
      rcases h : w.consolidate totalConsolidated s with ⟨next | e | _, s₁⟩
      · rw [Proc.bind_of_ok h, ih]
        rcases hrest : consolidateAll rest next s₁ with ⟨a | e | _, s₂⟩
        · rw [Proc.bind_of_ok hrest, Proc.bind_of_ok ((Proc.bind_of_ok h).trans hrest)]
        · rw [Proc.bind_of_err hrest, Proc.bind_of_err ((Proc.bind_of_ok h).trans hrest)]
        · rw [Proc.bind_of_panic hrest, Proc.bind_of_panic ((Proc.bind_of_ok h).trans hrest)]
      · rw [Proc.bind_of_err h, Proc.bind_of_err (Proc.bind_of_err h)]
      · rw [Proc.bind_of_panic h, Proc.bind_of_panic (Proc.bind_of_panic h)]

/-- No other mint has the url of a mint. -/
theorem url_ne (hrows : m.wallets.rows = before ++ w :: after) :
    (∀ w' ∈ before, w.mintUrl ≠ w'.mintUrl) ∧ ∀ w' ∈ after, w.mintUrl ≠ w'.mintUrl := by
  have hnodup := m.wallets.nodup
  rw [hrows, List.map_append, List.map_cons, List.nodup_append] at hnodup
  obtain ⟨-, hrest, hapart⟩ := hnodup
  refine ⟨fun w' hw' heq => ?_, fun w' hw' heq => ?_⟩
  · exact hapart _ (List.mem_map_of_mem hw') _ List.mem_cons_self heq.symm
  · exact (List.nodup_cons.mp hrest).1 (heq ▸ List.mem_map_of_mem hw')

/-- The balance of a mint stays as its turn leaves it. -/
theorem unspentInfos_turn (hm : m.Apart) (hs : m.Tidy s)
    (hrows : m.wallets.rows = before ++ w :: after) {total : Amount} {s₁ : Wallet.Store}
    (hbefore : consolidateAll before .zero s = (.ok total, s₁)) :
    w.unspentInfos (m.consolidate s).2 = w.unspentInfos (w.consolidate total s₁).2 := by
  have hmem (w' : Wallet) (h : w' ∈ before ∨ w' = w ∨ w' ∈ after) : w' ∈ m.wallets.rows := by
    rw [hrows, List.mem_append, List.mem_cons]
    exact h
  have htidy := (turns hm hs (fun w' h => hmem w' (.inl h)) .zero).1
  rw [hbefore] at htidy
  have hturn := htidy.consolidate hm (hmem w (.inr (.inl rfl))) total
  rw [MultiMintWallet.consolidate, hrows, consolidateAll_append, Proc.bind_of_ok hbefore,
    consolidateAll]
  rcases Proc.store_bind_cases (w.consolidate total) (consolidateAll after) s₁ with
    hstop | ⟨next, hnext⟩
  · rw [hstop]
  · rw [hnext]
    exact (turns hm hturn (fun w' h => hmem w' (.inr (.inr h))) next).2 w (url_ne hrows).2

/-- All balances are kept exactly if nothing is at stake at the turn of any mint. -/
theorem consolidationKeeps_iff (m : MultiMintWallet) (s : Wallet.Store) (hm : m.Apart)
    (hs : m.Tidy s) :
    m.ConsolidationKeeps s ↔ ∀ before w after, m.wallets.rows = before ++ w :: after →
      ∀ total s₁, consolidateAll before .zero s = (.ok total, s₁) → w.NothingAtStake s₁ := by
  refine forall₄_congr fun before w after hrows => ?_
  have hw : w ∈ m.wallets.rows := by
    rw [hrows]
    exact List.mem_append_right _ List.mem_cons_self
  obtain ⟨htidy, hsame⟩ := turns hm hs
    (fun w' h => hrows ▸ List.mem_append_left _ h : ∀ w' ∈ before, w' ∈ m.wallets.rows) .zero
  have hsame := hsame w (url_ne hrows).1
  have hstopped : (∀ total, (consolidateAll before .zero s).1 ≠ .ok total) →
      w.unspentTotal (m.consolidate s).2 = w.unspentTotal s := by
    intro hnone
    rw [MultiMintWallet.consolidate, hrows, consolidateAll_append]
    rcases h : consolidateAll before .zero s with ⟨total | e | _, s₁⟩
    · exact absurd (congrArg Prod.fst h) (hnone total)
    · rw [h] at hsame
      rw [Proc.bind_of_err h]
      exact Wallet.unspentTotal_congr hsame
    · rw [h] at hsame
      rw [Proc.bind_of_panic h]
      exact Wallet.unspentTotal_congr hsame
  rw [and_iff_left hstopped]
  refine forall₃_congr fun total s₁ hbefore => ?_
  rw [hbefore] at htidy hsame
  rw [← Wallet.unspentTotal_congr hsame,
    Wallet.unspentTotal_congr (unspentInfos_turn hm hs hrows hbefore)]
  exact Wallet.balanceKept_iff (htidy.filed w hw) (hm.plain w hw) (hm.signed w hw) total

end Turns

/-! ### Mints that refuse and mints that sign -/

/-- A wallet whose secrets have points by the sum of their bytes. -/
def sumWallet (fee : Nat) (hfee : fee < 2 ^ 64) : Wallet :=
  { Wallet.sampleWallet fee hfee with
    env :=
      { Wallet.pointEnv with
        hashToCurve := fun bytes => some ⟨false, BitVec.ofNat 256 (bytes.map UInt8.toNat).sum⟩ } }

def oneMint (fee : Nat) (hfee : fee < 2 ^ 64) : MultiMintWallet :=
  ⟨⟨[sumWallet fee hfee], List.nodup_singleton _⟩⟩

def unspentInfo (amount : Amount) (secret : String) (y : BitVec 256) : ProofInfo :=
  ⟨⟨Wallet.inputProof amount secret, none⟩, ⟨false, y⟩, "https://mint.example", .unspent, none,
    .sat⟩

/-- The store with two unspent proofs of four. -/
def eightUnspent : Wallet.Store :=
  ⟨⟨[unspentInfo 4 "a" 97, unspentInfo 4 "b" 98], by decide⟩, fun _ => 0⟩

/-- A wallet of another mint, which refuses every swap. -/
def refusedWallet : Wallet :=
  { sumWallet 0 Wallet.noFee_lt with
    mintUrl := "https://other.example"
    env :=
      { Wallet.pointEnv with
        hashToCurve := fun bytes => some ⟨true, BitVec.ofNat 256 (bytes.map UInt8.toNat).sum⟩ }
    postSwap := fun _ => .err .client }

def twoMints : MultiMintWallet := ⟨⟨[sumWallet 0 Wallet.noFee_lt, refusedWallet], by decide⟩⟩

/-- A proof of the one mint and two of the other. -/
def twelveUnspent : Wallet.Store :=
  ⟨⟨[unspentInfo 4 "a" 97,
      ⟨⟨Wallet.inputProof 4 "b", none⟩, ⟨true, 98⟩, "https://other.example", .unspent, none, .sat⟩,
      ⟨⟨Wallet.inputProof 4 "c", none⟩, ⟨true, 99⟩, "https://other.example", .unspent, none, .sat⟩],
    by decide⟩, fun _ => 0⟩

/-- The points of the one mint are even and those of the other odd. -/
theorem odd_of_derives {w : Wallet} {y : PublicKey} (h : w.Derives y) :
    (w = sumWallet 0 (by decide) → y.odd = false) ∧ (w = refusedWallet → y.odd = true) := by
  obtain ⟨_, _, _, _, -, -, hy⟩ := h
  constructor
  · rintro rfl
    cases hy
    rfl
  · rintro rfl
    cases hy
    rfl

theorem apart_twoMints : twoMints.Apart where
  plain := fun w hw _ => by
    rcases List.mem_pair.mp hw with rfl | rfl <;> rfl
  signed := fun w hw request signatures h => by
    rcases List.mem_pair.mp hw with rfl | rfl
    · exact Wallet.sampleWallet_signs 0 (by decide) request signatures h
    · cases h
  derived := fun w hw w' hw' y h h' => by
    rcases List.mem_pair.mp hw with rfl | rfl <;> rcases List.mem_pair.mp hw' with rfl | rfl
    · rfl
    · cases ((odd_of_derives h).1 rfl).symm.trans ((odd_of_derives h').2 rfl)
    · cases ((odd_of_derives h).2 rfl).symm.trans ((odd_of_derives h').1 rfl)
    · rfl

theorem tidy_twelveUnspent : twoMints.Tidy twelveUnspent where
  filed := fun w hw => by
    unfold Wallet.Filed
    rcases List.mem_pair.mp hw with rfl | rfl <;> decide +kernel
  own := fun w hw info hinfo h => by
    have hodd : ∀ info ∈ twelveUnspent.proofs.rows, info.mintUrl =
        if info.y.odd then "https://other.example" else "https://mint.example" := by
      decide +kernel
    rw [hodd info hinfo]
    rcases List.mem_pair.mp hw with rfl | rfl
    · rw [(odd_of_derives h).1 rfl]
      rfl
    · rw [(odd_of_derives h).2 rfl]
      rfl

/-- A mint with one proof keeps it, and one that refuses the swap of two proofs keeps what it should
behind its request. -/
theorem consolidationKeeps_iff_two : twoMints.ConsolidationKeeps twelveUnspent := by
  refine (consolidationKeeps_iff _ _ apart_twoMints tidy_twelveUnspent).mpr ?_
  intro before w after hrows total s₁ hbefore
  rcases before with _ | ⟨first, _ | ⟨second, rest⟩⟩
  · -- the mint with one proof
    cases hrows
    cases hbefore
    exact fun amount call hswaps => absurd hswaps.several (by decide +kernel)
  · -- the mint that refuses the swap
    cases hrows
    have hs : s₁ = twelveUnspent := (congrArg Prod.snd hbefore).symm
    subst hs
    intro amount call hswaps hrefresh id proofsTotal ys hreserving
    have htotal : Wallet.total (refusedWallet.getUnspentProofs twelveUnspent) = .ok 8 := by
      decide +kernel
    obtain rfl : amount = 8 := Outcome.ok.inj (hswaps.total_eq.symm.trans htotal)
    cases hswaps.call_eq
    have hreserved : refusedWallet.beforeReserving (Wallet.consolidatingSwap 8
        (refusedWallet.getUnspentProofs twelveUnspent)) =
          .ok (.v1 1, 8, [⟨true, 98⟩, ⟨true, 99⟩]) := by
      decide +kernel
    cases hreserved.symm.trans hreserving
    have hsent : (refusedWallet.swap (Wallet.consolidatingSwap 8
        (refusedWallet.getUnspentProofs twelveUnspent)) twelveUnspent).1 = .err .client := by
      decide +kernel
    refine .inr ⟨fun hfails => ?_, fun send h => by cases hsent.symm.trans h⟩
    obtain ⟨e, he⟩ := Wallet.fails_behindReserving.mpr hfails
    have hmade : ((refusedWallet.behindReserving (Wallet.consolidatingSwap 8
        (refusedWallet.getUnspentProofs twelveUnspent)) (.v1 1) 8
          (twelveUnspent.updateProofsState [⟨true, 98⟩, ⟨true, 99⟩] .reserved)).1 >>=
            fun pre => .ok pre.fee) = .ok .zero := by
      decide +kernel
    rw [he] at hmade
    cases hmade
  · obtain ⟨-, h⟩ := List.cons.inj hrows
    obtain ⟨-, h⟩ := List.cons.inj h
    cases rest <;> cases h

/-- The swap of two proofs for eight reserves what it makes, and with a fee it fails behind the
reservation of its inputs: nothing unspent is left. -/
theorem not_consolidationKeeps :
    ¬ (oneMint 0 (by decide)).ConsolidationKeeps eightUnspent ∧
      ¬ (oneMint 1000 (by decide)).ConsolidationKeeps eightUnspent := by
  have hswaps (fee : Nat) (hfee : fee < 2 ^ 64) : (sumWallet fee hfee).SwapsFor eightUnspent 8
      (Wallet.consolidatingSwap 8 ((sumWallet fee hfee).getUnspentProofs eightUnspent)) :=
    ⟨Nat.lt_succ_self 1, rfl, rfl⟩
  have hbefore (fee : Nat) (hfee : fee < 2 ^ 64) :
      (sumWallet fee hfee).unspentTotal eightUnspent = 8 := rfl
  refine ⟨fun h => ?_, fun h => ?_⟩
  · have hafter : (sumWallet 0 (by decide)).unspentTotal
        ((oneMint 0 (by decide)).consolidate eightUnspent).2 = 0 := by decide +kernel
    have hsent : ((sumWallet 0 (by decide)).swap (Wallet.consolidatingSwap 8
        ((sumWallet 0 (by decide)).getUnspentProofs eightUnspent)) eightUnspent).1 =
          .ok (some [⟨8, .v1 1, hexDigits 64 0, ⟨false, 1⟩, none⟩]) := by decide +kernel
    have hkept := ((h [] _ [] rfl).1 _ _ rfl).swapped 8 _ (hswaps 0 (by decide)) _ hsent .zero
      (by decide +kernel)
    rw [hafter, hbefore] at hkept
    cases hkept
  · have hafter : (sumWallet 1000 (by decide)).unspentTotal
        ((oneMint 1000 (by decide)).consolidate eightUnspent).2 = 0 := by decide +kernel
    have hkept := ((h [] _ [] rfl).1 _ _ rfl).unsent 8 _ (hswaps 1000 (by decide))
      ⟨.cdk .insufficientFunds, by decide +kernel⟩
    rw [hafter, hbefore] at hkept
    cases hkept

end MultiMintWallet

end Cdk
