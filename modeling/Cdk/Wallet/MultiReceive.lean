import Cdk.Nuts.Tokens
import Cdk.Wallet.Melting
import Cdk.Wallet.ReceivedProofs

/-!
# Receiving with the wallets of several mints

A token of a mint that is not in the wallet is received by a wallet that is added
for it. If the money is to be transferred, the mint is removed again: when the
receiving fails, when the target is unknown, and behind a transfer, also one for
which there are not enough funds. What is left of its balance is then in the
store, but no wallet counts it.
-/

namespace Cdk

open Lib

namespace MultiReceive

open Tokens (Token TokenV3Token)
open Wallet (Melted StoredMeltQuote)

/-! ## The operations -/

inductive Error where
  | token (error : Tokens.Error)
  | wallet (error : Wallet.Error)
  | receiveProofs (error : Wallet.ReceiveProofsError)
  | unitMismatch
  | unknownMint (mintUrl : String)
  | transferTimeout
deriving DecidableEq, Repr

/-- `Error::InsufficientFunds`. -/
def Error.isInsufficientFunds : Error → Bool
  | .wallet e => e.isInsufficientFunds
  | _ => false

/-- The wallets and their store. -/
structure Multi where
  unit : CurrencyUnit
  wallets : Table Wallet.mintUrl
  store : Wallet.Store

namespace Multi

def hasMint (m : Multi) (mintUrl : String) : Bool := (m.wallets.find? mintUrl).isSome

/-- The insertion of `add_mint`. -/
def insert (m : Multi) (w : Wallet) : Multi := { m with wallets := m.wallets.upsert w }

/-- `remove_mint`. -/
def removeMint (m : Multi) (mintUrl : String) : Multi :=
  { m with wallets := m.wallets.delete fun w => w.mintUrl = mintUrl }

end Multi

/-- `MultiMintReceiveOptions`. -/
structure ReceiveOptions (SecretKey : Type) where
  allowUntrusted : Bool
  transferToMint : Option String
  receiveOptions : Cdk.ReceiveOptions SecretKey
  amountSplitTarget : Counters.SplitTarget

/-- A mint quote, as far as a transfer reads it. -/
structure MintQuote where
  id : String
  request : String
deriving DecidableEq, Repr

/-- What the issuing of a quote is given from outside. -/
structure IssueReplies where
  replies : Wallet.MintReplies
  quoteInfo : Option (Amount × CurrencyUnit)
  postMint : List BlindedMessage → Outcome Wallet.Error (List BlindSignature)
  verifySignatures : List BlindSignature → Outcome Wallet.Error Unit

/-- What a transfer is given from outside: the balance that the store sums up, the quotes, the
answers to the melt, whether the quote is paid in time, and the answers to the issuing. -/
structure TransferReplies where
  dummyMintQuote : Amount → Outcome Wallet.Error MintQuote
  probeMeltQuote : String → Outcome Wallet.Error (String × StoredMeltQuote)
  finalMintQuote : Amount → Outcome Wallet.Error MintQuote
  finalMeltQuote : String → Outcome Wallet.Error (String × StoredMeltQuote)
  melting : Wallet.MeltReplies
  paid : Bool
  issuing : IssueReplies

structure Replies (SecretKey : Type) where
  token : Outcome Tokens.Error Token
  createWallet : String → Outcome Wallet.Error Wallet
  keysets : Outcome Wallet.Error (List KeySetInfo)
  receiving : Wallet.ReceiveReplies SecretKey
  transferring : TransferReplies

/-- `Token::unit`. -/
def tokenUnit : Token → Option CurrencyUnit
  | .tokenV3 token => token.unit
  | .tokenV4 token => some token.unit

/-- `Token::mint_url`. -/
def tokenMintUrl : Token → Outcome Tokens.Error String
  | .tokenV3 token =>
      match token.token.map TokenV3Token.mint with
      | [mintUrl] => .ok mintUrl
      | _ => .err .unsupportedToken
  | .tokenV4 token => .ok token.mintUrl

section Operations

variable {SecretKey : Type}

/-- `Wallet::mint` of a bolt11 quote, with the amount that can be minted and the unit of it. -/
def issue (wallet : Wallet) (r : IssueReplies) : Proc Wallet.Store Wallet.Error Unit := do
  let w := wallet.replied r.replies
  let _ ← .lift w.refreshKeysets
  let (amountMintable, unit) ← .lift (.ofOption (.cdk .unknownQuote) r.quoteInfo)
  let _ ← .lift (.ensure (amountMintable ≠ .zero) (.cdk .amountUndefined))
  let activeKeysetId ← .lift w.fetchActiveKeyset
  let feeAndAmounts ← .lift (w.getKeysetFeesAndAmountsById activeKeysetId)
  let amountSplit ← .lift (w.splitTargeted amountMintable .none feeAndAmounts)
  let numSecrets := Counters.asU32 amountSplit.length
  let newCounter ← Proc.transact (Wallet.Store.incrementKeysetCounter activeKeysetId numSecrets)
  let preMints ← .lift (w.preMintsFromSeed activeKeysetId (newCounter - numSecrets) amountMintable
    .none feeAndAmounts)
  let signatures ← .lift (r.postMint (preMints.map Wallet.PreMint.blindedMessage))
  let _ ← .lift (r.verifySignatures signatures)
  let proofs ← .lift (w.constructProofs signatures (preMints.map Wallet.PreMint.r)
    (preMints.map Wallet.PreMint.secret) (w.keys activeKeysetId))
  let infos ← .lift (proofs.mapM ({ w with unit := unit }.proofInfo .unspent))
  Proc.write (Wallet.Store.updateProofs infos [])
  let _ ← .lift (Wallet.total proofs)
  pure ()

/-- `Wallet::total_balance`. -/
def totalBalance (w : Wallet) : Proc Wallet.Store Error Amount :=
  .read fun s => (Wallet.total (w.getUnspentProofs s)).mapErr .wallet

/-- `handle_full_balance_transfer`: the final melt quote. -/
def fullBalanceQuote (r : TransferReplies) (sourceBalance : Amount) :
    Outcome Error (String × StoredMeltQuote) := do
  let _ ← .ensure (sourceBalance ≠ .zero) (.wallet (.cdk .insufficientFunds))
  let dummyMintQuote ← (r.dummyMintQuote sourceBalance).mapErr Error.wallet
  let probeMeltQuote ← (r.probeMeltQuote dummyMintQuote.request).mapErr Error.wallet
  let receiveAmount ← .ofOption (.wallet (.cdk .insufficientFunds))
    (sourceBalance.checkedSub probeMeltQuote.2.feeReserve)
  let _ ← .ensure (receiveAmount ≠ .zero) (.wallet (.cdk .insufficientFunds))
  let finalMintQuote ← (r.finalMintQuote receiveAmount).mapErr Error.wallet
  (r.finalMeltQuote finalMintQuote.request).mapErr Error.wallet

/-- `MultiMintWallet::transfer` of the full balance; the amount that was sent. -/
def transfer (source target : Wallet) (r : TransferReplies) : Proc Wallet.Store Error Amount := do
  let sourceBalanceInitial ← totalBalance source
  let finalMeltQuote ← .lift (fullBalanceQuote r sourceBalanceInitial)
  let _ ← .mapErr .wallet (source.melt r.melting finalMeltQuote.1 (some finalMeltQuote.2))
  let _ ← .lift (.ensure r.paid .transferTimeout)
  let _ ← .mapErr .wallet (issue target r.issuing)
  let sourceBalanceFinal ← totalBalance source
  let _ ← totalBalance target
  .lift (sourceBalanceInitial.sub sourceBalanceFinal)

/-- The wallet that `add_mint` makes. -/
def createdWallet (m : Multi) (mintUrl : String) (created : Wallet) : Wallet :=
  { created with mintUrl := mintUrl, unit := m.unit }

/-- `add_mint`. -/
def addMint (r : Replies SecretKey) (mintUrl : String) : Proc Multi Error Unit := do
  let created ← .lift ((r.createWallet mintUrl).mapErr .wallet)
  Proc.write fun m => m.insert (createdWallet m mintUrl created)

/-- `receive_proofs`, behind which a mint that was only added for the transfer is removed if it
returns an error. -/
def receiveOrRemove (w : Wallet) (replies : Wallet.ReceiveReplies SecretKey)
    (call : Wallet.ReceiveCall SecretKey) (removes : Bool) : Proc Multi Error Amount := fun m =>
  match w.receiveProofs replies call m.store with
  | (.ok amount, store) => (.ok amount, { m with store := store })
  | (.err e, store) =>
      (.err (.receiveProofs e),
        if removes then { m with store := store }.removeMint w.mintUrl
        else { m with store := store })
  | (.panic, store) => (.panic, { m with store := store })

/-- The transfer to a target, behind which the mint is removed unless there is an error other than
that there are not enough funds. -/
def transferAndRemove (w : Wallet) (r : TransferReplies) (targetMint : String) :
    Proc Multi Error Unit := fun m =>
  match m.wallets.find? targetMint with
  | none => (.err (.unknownMint targetMint), m.removeMint w.mintUrl)
  | some target =>
      match transfer w target r m.store with
      | (.ok _, store) => (.ok (), { m with store := store }.removeMint w.mintUrl)
      | (.err e, store) =>
          if e.isInsufficientFunds then (.ok (), { m with store := store }.removeMint w.mintUrl)
          else (.err e, { m with store := store })
      | (.panic, store) => (.panic, { m with store := store })

/-- `MultiMintWallet::receive` with the wallet of the mint, which is to be emptied into a target. -/
def receiveToken (opts : ReceiveOptions SecretKey) (r : Replies SecretKey) (token : Token)
    (mintUrl : String) (transferTo : Option String) : Proc Multi Error Amount := do
  let w ← .read fun m => .ofOption (.unknownMint mintUrl) (m.wallets.find? mintUrl)
  let keysetsInfo ← .lift (r.keysets.mapErr .wallet)
  let proofs ← .lift ((token.proofs keysetsInfo).mapErr .token)
  let amountReceived ← receiveOrRemove w r.receiving
    ⟨proofs, opts.receiveOptions, opts.amountSplitTarget⟩ transferTo.isSome
  match transferTo with
  | some targetMint => do
      transferAndRemove w r.transferring targetMint
      pure amountReceived
  | none => pure amountReceived

/-- `MultiMintWallet::receive`. -/
def receive (opts : ReceiveOptions SecretKey) (r : Replies SecretKey) :
    Proc Multi Error Amount := do
  let token ← .lift (r.token.mapErr .token)
  let unit ← .read fun m => .ok m.unit
  let _ ← .lift (.ensure ((tokenUnit token).getD .sat = unit) .unitMismatch)
  let mintUrl ← .lift ((tokenMintUrl token).mapErr .token)
  let isTrusted ← .read fun m => .ok (m.hasMint mintUrl)
  let _ ← .lift (.ensure (isTrusted || opts.allowUntrusted) (.unknownMint mintUrl))
  if isTrusted then receiveToken opts r token mintUrl none
  else do
    addMint r mintUrl
    receiveToken opts r token mintUrl opts.transferToMint

end Operations

/-! ## What is to hold -/

section Statements

variable {SecretKey : Type} (m : Multi) (opts : ReceiveOptions SecretKey) (r : Replies SecretKey)

/-- The call adds the wallet of a mint. -/
def Adds (w : Wallet) : Prop :=
  ∃ token created, r.token = .ok token ∧ (tokenUnit token).getD .sat = m.unit ∧
    tokenMintUrl token = .ok w.mintUrl ∧ m.hasMint w.mintUrl = false ∧
    opts.allowUntrusted = true ∧ r.createWallet w.mintUrl = .ok created ∧
    w = createdWallet m w.mintUrl created

/-- A mint that was in the wallet or is added, and has an unspent balance behind the call, is in the
wallet behind the call. -/
def HidesNothing : Prop :=
  ∀ w : Wallet, w.unit = m.unit →
    (m.hasMint w.mintUrl = true ∨ ∃ added, Adds m opts r added ∧ added.mintUrl = w.mintUrl) →
    w.unspentTotal (receive opts r m).2.store ≠ 0 →
      (receive opts r m).2.hasMint w.mintUrl = true

/-- A wallet is added for a transfer, and is to receive the proofs of the token. -/
structure Passes (w : Wallet) (call : Wallet.ReceiveCall SecretKey) (targetMint : String) :
    Prop where
  adds : Adds m opts r w
  transfers : opts.transferToMint = some targetMint
  proofs : ∃ token keysetsInfo, r.token = .ok token ∧ r.keysets = .ok keysetsInfo ∧
    token.proofs keysetsInfo = .ok call.proofs
  options : call.opts = opts.receiveOptions ∧ call.amountSplitTarget = opts.amountSplitTarget

/-- Unspent proofs of worth are in the store only if they are among those that are received. -/
def OnlyReceived (w : Wallet) (replies : Wallet.ReceiveReplies SecretKey)
    (call : Wallet.ReceiveCall SecretKey) (s : Wallet.Store) : Prop :=
  ∀ info ∈ w.unspentInfos s, info.proof.amount = .zero ∨
    ∃ received, w.beforeStoring replies call = .ok received ∧
      info.y ∈ received.infos.map ProofInfo.y

/-- The mint answers the swap that is posted for the received proofs with these signatures. -/
def SignsReceived (w : Wallet) (replies : Wallet.ReceiveReplies SecretKey)
    (call : Wallet.ReceiveCall SecretKey) (s : Wallet.Store) (signatures : List BlindSignature) :
    Prop :=
  ∃ received preSwap s', w.beforeStoring replies call = .ok received ∧
    w.createSwap (call.swapCall received) (s.updateProofs received.infos []) = (.ok preSwap, s') ∧
    replies.postSwap ⟨received.proofs, call.opts.signOutputs w.env replies.curve replies.aux
      received.proofs.length received.sigAll preSwap.swapRequest.outputs⟩ = .ok signatures

/-- The quote that a transfer of the full balance asks for. -/
def AsksFor (w : Wallet) (r : TransferReplies) (s : Wallet.Store)
    (quote : String × StoredMeltQuote) : Prop :=
  ∃ balance, totalBalance w s = (.ok balance, s) ∧ fullBalanceQuote r balance = .ok quote

/-- The melt of the quote that a transfer asks for pays with everything that is worth anything, and
the answer to its request has no change. -/
structure PaysWithAll (w : Wallet) (r : TransferReplies) (s : Wallet.Store) : Prop where
  inputs : ∀ quote inputs s', AsksFor w r s quote →
    w.prepareMelt r.melting (some quote.2) s = (.ok inputs, s') →
    ∀ ys, w.ys inputs = .ok ys →
      ∀ info ∈ w.unspentInfos s', info.y ∉ ys → info.proof.amount = .zero
  change : ∀ quote inputs s' sent s'' response change, AsksFor w r s quote →
    w.prepareMelt r.melting (some quote.2) s = (.ok inputs, s') →
    (w.replied r.melting.melting).sendMelt
      (Wallet.meltCall r.melting quote.1 (some quote.2) inputs) s' = (.ok sent, s'') →
    r.melting.postMelt sent.request = .ok response → response.change = some change →
      ∀ signature ∈ change, signature.amount = .zero

/-- If the receiving fails, the mint has no money from before but proofs of the token. -/
def KeepsOnFailure : Prop :=
  ∀ w call targetMint e s', Passes m opts r w call targetMint →
    w.receiveProofs r.receiving call m.store = (.err e, s') →
      OnlyReceived w r.receiving call m.store

/-- For an unknown target there is no money, neither from before nor received, where the points of
the received proofs are those of others and the mint signs every output for its amount. -/
def KeepsForUnknown : Prop :=
  ∀ w call targetMint amount s' received, Passes m opts r w call targetMint →
    w.receiveProofs r.receiving call m.store = (.ok amount, s') →
    (m.insert w).wallets.find? targetMint = none →
    w.Injective → w.Ahead m.store →
    (∀ posted signatures, r.receiving.postSwap posted = .ok signatures →
      signatures.map BlindSignature.amount = posted.request.outputs.map BlindedMessage.amount) →
    w.beforeStoring r.receiving call = .ok received →
    (∀ info ∈ received.infos, w.Behind m.store info.y) →
      OnlyReceived w r.receiving call m.store ∧
        ∀ signatures, SignsReceived w r.receiving call m.store signatures →
          ∀ signature ∈ signatures, signature.amount = .zero

/-- A transfer that is not quoted for a lack of funds starts from none. -/
def KeepsUnquoted : Prop :=
  ∀ w call targetMint amount s' target balance e, Passes m opts r w call targetMint →
    w.receiveProofs r.receiving call m.store = (.ok amount, s') →
    (m.insert w).wallets.find? targetMint = some target →
    totalBalance w s' = (.ok balance, s') → fullBalanceQuote r.transferring balance = .err e →
    e.isInsufficientFunds = true → w.unspentTotal s' = 0

/-- What keeps money from being hidden where a mint is only added for a transfer. -/
structure Safe : Prop where
  failed : KeepsOnFailure m opts r
  /-- If proofs are received, the target is in the wallet, or there is no money. -/
  known : ∀ w call targetMint amount s', Passes m opts r w call targetMint →
    w.receiveProofs r.receiving call m.store = (.ok amount, s') →
    (m.insert w).hasMint targetMint = true ∨ OnlyReceived w r.receiving call m.store ∧
      ∀ signatures, SignsReceived w r.receiving call m.store signatures →
        ∀ signature ∈ signatures, signature.amount = .zero
  /-- A transfer only lacks funds if there are none. -/
  funded : ∀ w call targetMint amount s' target e s'', Passes m opts r w call targetMint →
    w.receiveProofs r.receiving call m.store = (.ok amount, s') →
    (m.insert w).wallets.find? targetMint = some target →
    transfer w target r.transferring s' = (.err e, s'') → e.isInsufficientFunds = true →
      w.unspentTotal s' = 0
  /-- A transfer that succeeds is to another mint, and leaves nothing behind. -/
  emptied : ∀ w call targetMint amount s' target sent s'', Passes m opts r w call targetMint →
    w.receiveProofs r.receiving call m.store = (.ok amount, s') →
    (m.insert w).wallets.find? targetMint = some target →
    transfer w target r.transferring s' = (.ok sent, s'') →
      targetMint ≠ w.mintUrl ∧ PaysWithAll w r.transferring s'

end Statements

/-! ## The map of the wallets -/

section Map

variable {m : Multi} {w : Wallet} {mintUrl : String}

theorem hasMint_iff : m.hasMint mintUrl = true ↔ ∃ w ∈ m.wallets.rows, w.mintUrl = mintUrl := by
  rw [Multi.hasMint, Option.isSome_iff_exists]
  exact exists_congr fun w => Table.find?_eq_some

theorem hasMint_insert :
    (m.insert w).hasMint mintUrl = true ↔ w.mintUrl = mintUrl ∨ m.hasMint mintUrl = true := by
  rw [Multi.hasMint, Multi.insert, Table.find?_upsert]
  split
  next h => exact iff_of_true rfl (.inl h)
  next h => exact (or_iff_right h).symm

theorem hasMint_removeMint {removed : String} :
    (m.removeMint removed).hasMint mintUrl = true ↔
      mintUrl ≠ removed ∧ m.hasMint mintUrl = true := by
  rw [hasMint_iff, hasMint_iff, Multi.removeMint]
  constructor
  · rintro ⟨w, hw, rfl⟩
    obtain ⟨hrow, hkept⟩ := Table.mem_delete.mp hw
    exact ⟨of_decide_eq_false hkept, w, hrow, rfl⟩
  · rintro ⟨hne, w, hrow, rfl⟩
    exact ⟨w, Table.mem_delete.mpr ⟨hrow, decide_eq_false hne⟩, rfl⟩

end Map

/-! ## What is left of the balance -/

section Balance

variable {SecretKey : Type} {w target : Wallet} {s s' : Wallet.Store} {info : ProofInfo}

/-- Unspent proofs that the receiving leaves are from before and not received again, or have amounts
of signatures. -/
theorem unspentInfos_received {replies : Wallet.ReceiveReplies SecretKey}
    {call : Wallet.ReceiveCall SecretKey} {amount : Amount}
    (h : w.receiveProofs replies call s = (.ok amount, s')) (hinfo : info ∈ w.unspentInfos s') :
    (info ∈ w.unspentInfos s ∧ ∀ received, w.beforeStoring replies call = .ok received →
        info.y ∉ received.infos.map ProofInfo.y) ∨
      ∃ signatures, SignsReceived w replies call s signatures ∧
        ∃ signature ∈ signatures, signature.amount = info.proof.amount := by
  rw [Wallet.receiveProofs, Proc.lift_bind_ok] at h
  obtain ⟨received, hreceived, h⟩ := h
  rw [Proc.bind_of_ok (Proc.write_run _ _), Proc.mapErr_ok, Wallet.behindStoring,
    Proc.bind_ok] at h
  obtain ⟨⟨totalAmount, recvInfos⟩, s₁, hswap, h⟩ := h
  dsimp only at h
  rw [Proc.bind_of_ok (Proc.write_run _ _), Proc.lift_bind_ok] at h
  obtain ⟨_, -, h⟩ := h
  cases h
  rcases Wallet.mem_unspentInfos_exchange hinfo with hnew | ⟨hold, -⟩
  · right
    rw [Wallet.swapReceived, Proc.bind_ok] at hswap
    obtain ⟨preSwap, s₂, hpre, hswap⟩ := hswap
    simp only [Proc.lift_bind_ok] at hswap
    obtain ⟨signatures, hsignatures, recvProofs, hrecvProofs, hswap⟩ := hswap
    rw [Proc.bind_ok] at hswap
    obtain ⟨_, s₃, -, hswap⟩ := hswap
    simp only [Proc.lift_bind_ok] at hswap
    obtain ⟨_, -, _, hrecvInfos, hswap⟩ := hswap
    cases hswap
    obtain ⟨p, hp, hmade⟩ := Outcome.exists_of_mem_mapM hrecvInfos hnew
    have hamounts := (Wallet.constructProofs_spec hrecvProofs).1
    have hmem : p.amount ∈ signatures.map BlindSignature.amount := by
      rw [← hamounts]
      exact List.mem_map_of_mem hp
    obtain ⟨signature, hsignature, heq⟩ := List.mem_map.mp hmem
    refine ⟨signatures, ⟨received, preSwap, s₂, hreceived, hpre, hsignatures⟩, signature,
      hsignature, ?_⟩
    rw [heq, ← (Wallet.proofInfo_eq_ok hmade).2.1]
  · left
    have hafter := @Wallet.mem_unspentInfos_swapReceived _ w replies call received info s
      (Wallet.storable_of_beforeStoring hreceived)
    rw [hswap] at hafter
    obtain ⟨hbefore, hnot⟩ := hafter.mp hold
    refine ⟨hbefore, fun received' hreceived' => ?_⟩
    cases hreceived.symm.trans hreceived'
    exact hnot

/-- The received amount is what the signatures are worth. -/
theorem total_signsReceived {replies : Wallet.ReceiveReplies SecretKey}
    {call : Wallet.ReceiveCall SecretKey} {amount : Amount} {signatures : List BlindSignature}
    (h : w.receiveProofs replies call s = (.ok amount, s'))
    (hsigns : SignsReceived w replies call s signatures) :
    Amount.total (signatures.map BlindSignature.amount) = amount.toNat := by
  obtain ⟨received, preSwap, s₁, hreceived, hpre, hsignatures⟩ := hsigns
  rw [Wallet.receiveProofs, Proc.lift_bind_of_ok hreceived, Proc.bind_of_ok (Proc.write_run _ _),
    Proc.mapErr_ok, Wallet.behindStoring, Proc.bind_ok] at h
  obtain ⟨⟨totalAmount, recvInfos⟩, s₂, hswap, h⟩ := h
  dsimp only at h
  rw [Proc.bind_of_ok (Proc.write_run _ _), Proc.lift_bind_ok] at h
  obtain ⟨_, -, h⟩ := h
  cases h
  rw [Wallet.swapReceived, Proc.bind_of_ok hpre] at hswap
  simp only [Proc.lift_bind_ok] at hswap
  obtain ⟨signatures', hsignatures', recvProofs, hrecvProofs, hswap⟩ := hswap
  cases hsignatures.symm.trans hsignatures'
  rw [Proc.bind_ok] at hswap
  obtain ⟨_, s₃, -, hswap⟩ := hswap
  simp only [Proc.lift_bind_ok] at hswap
  obtain ⟨_, htotal, _, -, hswap⟩ := hswap
  cases hswap
  rw [← (Wallet.constructProofs_spec hrecvProofs).1]
  exact (Selection.totalAmount_eq_ok.mp (Outcome.mapErr_eq_ok.mp htotal)).symm

/-- The issuing of another mint adds nothing to the balance. -/
theorem unspentInfos_issue {r : IssueReplies} (hother : target.mintUrl ≠ w.mintUrl)
    (h : issue target r s = (.ok (), s')) (hinfo : info ∈ w.unspentInfos s') :
    info ∈ w.unspentInfos s := by
  simp only [issue, Proc.lift_bind_ok] at h
  obtain ⟨_, -, ⟨amount, unit⟩, -, _, -, id, -, feeAndAmounts, -, amountSplit, -, h⟩ := h
  rw [Proc.bind_ok] at h
  obtain ⟨newCounter, s₁, hcounter, h⟩ := h
  simp only [Proc.lift_bind_ok] at h
  obtain ⟨preMints, -, signatures, -, _, -, proofs, -, infos, hinfos, h⟩ := h
  rw [Proc.bind_of_ok (Proc.write_run _ _), Proc.lift_bind_ok] at h
  obtain ⟨_, -, h⟩ := h
  cases h
  rcases Wallet.mem_unspentInfos_exchange hinfo with hnew | ⟨hold, -⟩
  · obtain ⟨p, -, hmade⟩ := Outcome.exists_of_mem_mapM hinfos hnew
    have hurl : info.mintUrl = target.mintUrl := (Wallet.proofInfo_eq_ok hmade).2.2.1
    exact absurd (hurl.symm.trans (Wallet.mem_unspentInfos.mp hinfo).2.1) hother
  · have hproofs := Wallet.keeps_proofs_increment id (Counters.asU32 amountSplit.length) s
    rw [hcounter] at hproofs
    rwa [Wallet.unspentInfos_congr hproofs] at hold

/-- Unspent proofs that a melt leaves are none of its inputs, or change. -/
theorem unspentInfos_melt {replies : Wallet.MeltReplies} {quoteId : String}
    {quote : StoredMeltQuote} {melted : Melted}
    (h : w.melt replies quoteId (some quote) s = (.ok melted, s'))
    (hinfo : info ∈ w.unspentInfos s') :
    (∃ inputs s₁ sent s₂ response change signature,
      w.prepareMelt replies (some quote) s = (.ok inputs, s₁) ∧
      (w.replied replies.melting).sendMelt (Wallet.meltCall replies quoteId (some quote) inputs)
        s₁ = (.ok sent, s₂) ∧
      replies.postMelt sent.request = .ok response ∧ response.change = some change ∧
        signature ∈ change ∧ signature.amount = info.proof.amount) ∨
    ∃ inputs s₁ ys, w.prepareMelt replies (some quote) s = (.ok inputs, s₁) ∧
      w.ys inputs = .ok ys ∧ info ∈ w.unspentInfos s₁ ∧ info.y ∉ ys := by
  rw [Wallet.melt, Proc.bind_ok] at h
  obtain ⟨inputs, s₁, hinputs, h⟩ := h
  rw [Wallet.payMelt, Proc.bind_ok] at h
  obtain ⟨sent, s₂, hsent, h⟩ := h
  rw [Wallet.answerMelt] at h
  cases hresponse : replies.postMelt sent.request with
  | ok response =>
    rw [hresponse] at h
    simp only [Wallet.finishMelt, Proc.lift_bind_ok] at h
    obtain ⟨keys, -, changeProofs, hchange, _, -, infos, hinfos, ys, hys, h⟩ := h
    rw [Proc.bind_of_ok (Proc.write_run _ _)] at h
    cases h
    rcases Wallet.mem_unspentInfos_exchange hinfo with hnew | ⟨hold, hkept⟩
    · left
      cases hanswer : response.change with
      | none =>
          rw [hanswer] at hchange
          cases hchange
          cases hinfos
          cases hnew
      | some change =>
          rw [hanswer] at hchange
          simp only [Wallet.meltChangeProofs, Outcome.bind_eq_ok] at hchange
          obtain ⟨proofs, hproofs, hchange⟩ := hchange
          cases hchange
          simp only [Wallet.meltChangeInfos, Outcome.bind_eq_ok] at hinfos
          obtain ⟨_, -, hinfos⟩ := hinfos
          obtain ⟨p, hp, hmade⟩ := Outcome.exists_of_mem_mapM hinfos hnew
          have hmem : p.amount ∈ change.map BlindSignature.amount := by
            rw [← (Wallet.constructProofs_spec hproofs).1]
            exact List.mem_map_of_mem hp
          obtain ⟨signature, hsignature, heq⟩ := List.mem_map.mp hmem
          refine ⟨inputs, s₁, sent, s₂, response, change, signature, hinputs, hsent, hresponse,
            hanswer, hsignature, ?_⟩
          rw [heq, ← (Wallet.proofInfo_eq_ok hmade).2.1]
    · right
      obtain ⟨pending, hsends⟩ := Wallet.sends_of_sendMelt hsent
      exact ⟨inputs, s₁, ys, hinputs, hys, (hsends.mem_unspentInfos.mp hold).1, hkept⟩
  | err e =>
    rw [hresponse] at h
    obtain ⟨_, _, -, h⟩ := Proc.bind_ok.mp h
    cases h
  | panic =>
    rw [hresponse] at h
    cases h

end Balance

/-! ## The exits of a transfer -/

section Transfers

variable {w target : Wallet} {r : TransferReplies} {s s' : Wallet.Store}

/-- Without funds there is no transfer. -/
theorem transfer_of_zero (h : w.unspentTotal s = 0) :
    transfer w target r s = (.err (.wallet (.cdk .insufficientFunds)), s) := by
  have htotal : Wallet.total (w.getUnspentProofs s) = .ok .zero := by
    rw [Wallet.total, Outcome.mapErr_eq_ok, Selection.totalAmount_eq_ok]
    exact h.symm
  have hbalance : totalBalance w s = (.ok .zero, s) := by
    rw [totalBalance, Proc.read_run, htotal]
    rfl
  rw [transfer, Proc.bind_of_ok hbalance]
  rfl

/-- A transfer to another mint that pays with all proofs leaves nothing of worth. -/
theorem unspentInfos_transfer {sent : Amount} (hother : target.mintUrl ≠ w.mintUrl)
    (hall : PaysWithAll w r s) (h : transfer w target r s = (.ok sent, s')) :
    ∀ info ∈ w.unspentInfos s', info.proof.amount = .zero := by
  rw [transfer, totalBalance, Proc.read_bind_ok] at h
  obtain ⟨initial, hinitial, h⟩ := h
  rw [Proc.lift_bind_ok] at h
  obtain ⟨quote, hquote, h⟩ := h
  rw [Proc.bind_ok] at h
  obtain ⟨melted, s₁, hmelt, h⟩ := h
  rw [Proc.lift_bind_ok] at h
  obtain ⟨_, -, h⟩ := h
  rw [Proc.bind_ok] at h
  obtain ⟨_, s₂, hissue, h⟩ := h
  rw [Proc.read_bind_ok] at h
  obtain ⟨final, -, h⟩ := h
  rw [totalBalance, Proc.read_bind_ok] at h
  obtain ⟨_, -, h⟩ := h
  obtain ⟨-, rfl⟩ := Prod.ext_iff.mp h
  have hasks : AsksFor w r s quote :=
    ⟨initial, by rw [totalBalance, Proc.read_run, hinitial], hquote⟩
  intro info hinfo
  have hafter := unspentInfos_issue hother (Proc.mapErr_ok.mp hissue) hinfo
  rcases unspentInfos_melt (Proc.mapErr_ok.mp hmelt) hafter with
    ⟨inputs, s₃, sent, s₄, response, change, signature, hinputs, hsent, hresponse, hchange,
      hsignature, hamount⟩ |
    ⟨inputs, s₃, ys, hinputs, hys, hbefore, hy⟩
  · rw [← hamount]
    exact hall.change quote inputs s₃ sent s₄ response change hasks hinputs hsent hresponse hchange
      signature hsignature
  · exact hall.inputs quote inputs s₃ hasks hinputs ys hys info hbefore hy

end Transfers

/-! ## The exits of a call -/

section Exits

variable {SecretKey : Type} {m m' : Multi} {opts : ReceiveOptions SecretKey}
  {r : Replies SecretKey} {w : Wallet} {call : Wallet.ReceiveCall SecretKey}
  {targetMint : String} {s : Wallet.Store}

/-- The exits behind which the mint is removed, with the store that they leave. -/
inductive Removes (m : Multi) (r : Replies SecretKey) (w : Wallet)
    (call : Wallet.ReceiveCall SecretKey) (targetMint : String) : Wallet.Store → Prop
  | failed {e : Wallet.ReceiveProofsError} {s : Wallet.Store}
      (received : w.receiveProofs r.receiving call m.store = (.err e, s)) :
      Removes m r w call targetMint s
  | unknown {amount : Amount} {s : Wallet.Store}
      (received : w.receiveProofs r.receiving call m.store = (.ok amount, s))
      (absent : m.wallets.find? targetMint = none) : Removes m r w call targetMint s
  | transferred {amount sent : Amount} {s s' : Wallet.Store} {target : Wallet}
      (received : w.receiveProofs r.receiving call m.store = (.ok amount, s))
      (found : m.wallets.find? targetMint = some target)
      (done : transfer w target r.transferring s = (.ok sent, s')) :
      Removes m r w call targetMint s'
  | unfunded {amount : Amount} {s s' : Wallet.Store} {target : Wallet} {e : Error}
      (received : w.receiveProofs r.receiving call m.store = (.ok amount, s))
      (found : m.wallets.find? targetMint = some target)
      (lacks : transfer w target r.transferring s = (.err e, s'))
      (insufficient : e.isInsufficientFunds = true) : Removes m r w call targetMint s'

/-- No wallet is removed, or that of the token is at one of the exits. -/
def Leaves (m : Multi) (opts : ReceiveOptions SecretKey) (r : Replies SecretKey) (token : Token)
    (w : Wallet) (transferTo : Option String) (m' : Multi) : Prop :=
  m'.wallets = m.wallets ∨ ∃ targetMint keysetsInfo proofs, transferTo = some targetMint ∧
    r.keysets = .ok keysetsInfo ∧ token.proofs keysetsInfo = .ok proofs ∧
    m'.wallets = (m.removeMint w.mintUrl).wallets ∧
    Removes m r w ⟨proofs, opts.receiveOptions, opts.amountSplitTarget⟩ targetMint m'.store

/-- Behind a transfer the wallets stay, or that of the token is removed. -/
theorem leaves_transferAndRemove {amount : Amount}
    (hreceived : w.receiveProofs r.receiving call m.store = (.ok amount, s)) :
    (transferAndRemove w r.transferring targetMint { m with store := s }).2.wallets = m.wallets ∨
      (transferAndRemove w r.transferring targetMint { m with store := s }).2.wallets =
          (m.removeMint w.mintUrl).wallets ∧
        Removes m r w call targetMint
          (transferAndRemove w r.transferring targetMint { m with store := s }).2.store := by
  rw [transferAndRemove]
  dsimp only
  cases htarget : m.wallets.find? targetMint with
  | none => exact .inr ⟨rfl, .unknown hreceived htarget⟩
  | some target =>
      dsimp only
      rcases htransfer : transfer w target r.transferring s with ⟨sent | e | _, s'⟩
      · exact .inr ⟨rfl, .transferred hreceived htarget htransfer⟩
      · dsimp only
        split
        next hlacks => exact .inr ⟨rfl, .unfunded hreceived htarget htransfer hlacks⟩
        next => exact .inl rfl
      · exact .inl rfl

/-- What happens to the wallets: none is removed, or that of the token is. -/
theorem leaves_receiveToken {token : Token} {mintUrl : String} (transferTo : Option String)
    (hfind : m.wallets.find? mintUrl = some w) :
    Leaves m opts r token w transferTo (receiveToken opts r token mintUrl transferTo m).2 := by
  have hread : (Proc.read fun m : Multi =>
      Outcome.ofOption (Error.unknownMint mintUrl) (m.wallets.find? mintUrl)) m = (.ok w, m) := by
    rw [Proc.read_run, hfind]
    rfl
  rw [receiveToken, Proc.bind_of_ok hread]
  cases hkeysets : r.keysets with
  | err e => exact .inl rfl
  | panic => exact .inl rfl
  | ok keysetsInfo =>
      rw [Proc.lift_bind_of_ok (Outcome.mapErr_eq_ok.mpr rfl)]
      cases hproofs : token.proofs keysetsInfo with
      | err e => exact .inl rfl
      | panic => exact .inl rfl
      | ok proofs =>
          rw [Proc.lift_bind_of_ok (Outcome.mapErr_eq_ok.mpr rfl)]
          rcases hrun : w.receiveProofs r.receiving
            ⟨proofs, opts.receiveOptions, opts.amountSplitTarget⟩ m.store with
            ⟨amount | e | _, s₁⟩
          · have hreceived : receiveOrRemove w r.receiving
                ⟨proofs, opts.receiveOptions, opts.amountSplitTarget⟩ transferTo.isSome m =
                (.ok amount, { m with store := s₁ }) := by
              rw [receiveOrRemove, hrun]
            rw [Proc.bind_of_ok hreceived]
            cases transferTo with
            | none => exact .inl rfl
            | some targetMint =>
                have hlast := Proc.Keeps.after (p := id) (f := fun _ : Unit =>
                  (pure amount : Proc Multi Error Amount)) (fun _ => Proc.Keeps.pure _)
                  (x := transferAndRemove w r.transferring targetMint) { m with store := s₁ }
                dsimp only [id] at hlast ⊢
                rw [hlast]
                exact (leaves_transferAndRemove hrun).imp_right fun h =>
                  ⟨targetMint, keysetsInfo, proofs, rfl, hkeysets, hproofs, h⟩
          · cases transferTo with
            | none =>
                have hreceived : receiveOrRemove w r.receiving
                    ⟨proofs, opts.receiveOptions, opts.amountSplitTarget⟩ false m =
                    (.err (.receiveProofs e), { m with store := s₁ }) := by
                  rw [receiveOrRemove, hrun]
                  rfl
                rw [Option.isSome_none, Proc.bind_of_err hreceived]
                exact .inl rfl
            | some targetMint =>
                have hreceived : receiveOrRemove w r.receiving
                    ⟨proofs, opts.receiveOptions, opts.amountSplitTarget⟩ true m =
                    (.err (.receiveProofs e), { m with store := s₁ }.removeMint w.mintUrl) := by
                  rw [receiveOrRemove, hrun]
                  rfl
                rw [Option.isSome_some, Proc.bind_of_err hreceived]
                exact .inr ⟨targetMint, keysetsInfo, proofs, rfl, hkeysets, hproofs, rfl,
                  .failed hrun⟩
          · have hreceived : receiveOrRemove w r.receiving
                ⟨proofs, opts.receiveOptions, opts.amountSplitTarget⟩ transferTo.isSome m =
                (.panic, { m with store := s₁ }) := by
              rw [receiveOrRemove, hrun]
            rw [Proc.bind_of_panic hreceived]
            exact .inl rfl

end Exits

/-! ## Nothing is hidden -/

section Main

variable {SecretKey : Type} {m : Multi} {opts : ReceiveOptions SecretKey} {r : Replies SecretKey}
  {w : Wallet} {token : Token} {mintUrl : String}

theorem not_adds_of_token (h : ∀ token, r.token ≠ .ok token) : ¬Adds m opts r w := by
  rintro ⟨token, _, htoken, -⟩
  exact h token htoken

theorem Adds.url_eq (h : Adds m opts r w) (htoken : r.token = .ok token) :
    tokenMintUrl token = .ok w.mintUrl := by
  obtain ⟨token', _, htoken', -, hurl, -⟩ := h
  cases htoken.symm.trans htoken'
  exact hurl

/-- Only the mint of the token is added. -/
theorem Adds.mintUrl_eq {w' : Wallet} (h : Adds m opts r w) (h' : Adds m opts r w') :
    w.mintUrl = w'.mintUrl := by
  obtain ⟨token, _, htoken, -, hurl, -⟩ := h
  exact Outcome.ok.inj (hurl.symm.trans (h'.url_eq htoken))

theorem receive_of_unit (htoken : r.token = .ok token)
    (hunit : (tokenUnit token).getD .sat = m.unit) :
    receive opts r m =
      ((do
        let mintUrl ← .lift ((tokenMintUrl token).mapErr Error.token)
        let isTrusted ← .read fun m => .ok (m.hasMint mintUrl)
        let _ ← .lift (.ensure (isTrusted || opts.allowUntrusted) (.unknownMint mintUrl))
        if isTrusted then receiveToken opts r token mintUrl none
        else do
          addMint r mintUrl
          receiveToken opts r token mintUrl opts.transferToMint : Proc Multi Error Amount) m) := by
  rw [receive, htoken]
  change (Proc.lift (.ensure (decide ((tokenUnit token).getD .sat = m.unit))
    Error.unitMismatch) >>= _) m = _
  rw [decide_eq_true hunit]
  rfl

theorem receive_of_url (htoken : r.token = .ok token)
    (hunit : (tokenUnit token).getD .sat = m.unit) (hurl : tokenMintUrl token = .ok mintUrl)
    (hallowed : (m.hasMint mintUrl || opts.allowUntrusted) = true) :
    receive opts r m =
      (if m.hasMint mintUrl then receiveToken opts r token mintUrl none
      else do
        addMint r mintUrl
        receiveToken opts r token mintUrl opts.transferToMint : Proc Multi Error Amount) m := by
  rw [receive_of_unit htoken hunit, hurl]
  change (Proc.lift (.ensure (m.hasMint mintUrl || opts.allowUntrusted) _) >>= _) m = _
  rw [hallowed]
  rfl

/-- A wallet is only added for a mint that is not there, if that is allowed. -/
theorem Adds.of_url (h : Adds m opts r w) (htoken : r.token = .ok token)
    (hurl : tokenMintUrl token = .ok mintUrl) :
    m.hasMint mintUrl = false ∧ opts.allowUntrusted = true ∧
      ∃ created, r.createWallet mintUrl = .ok created := by
  cases hurl.symm.trans (h.url_eq htoken)
  obtain ⟨_, created, -, -, -, hnew, hallow, hcreated, -⟩ := h
  exact ⟨hnew, hallow, created, hcreated⟩

theorem wallets_of_hasMint (htoken : r.token = .ok token)
    (hunit : (tokenUnit token).getD .sat = m.unit) (hurl : tokenMintUrl token = .ok mintUrl)
    (hmint : m.hasMint mintUrl = true) : (receive opts r m).2.wallets = m.wallets := by
  obtain ⟨w, hfind⟩ := Option.isSome_iff_exists.mp hmint
  rw [receive_of_url htoken hunit hurl (by rw [hmint]; rfl), hmint, if_pos rfl]
  rcases @leaves_receiveToken _ m opts r w token mintUrl none hfind with
    hsame | ⟨_, _, _, hnone, -⟩
  · exact hsame
  · cases hnone

theorem receive_of_untrusted (htoken : r.token = .ok token)
    (hunit : (tokenUnit token).getD .sat = m.unit) (hurl : tokenMintUrl token = .ok mintUrl)
    (hmint : m.hasMint mintUrl = false) (hallow : opts.allowUntrusted = true) :
    receive opts r m =
      (do
        addMint r mintUrl
        receiveToken opts r token mintUrl opts.transferToMint : Proc Multi Error Amount) m := by
  rw [receive_of_url htoken hunit hurl (by rw [hallow, Bool.or_true]), hmint,
    if_neg Bool.false_ne_true]

/-- An added wallet stays, or it is removed at one of the exits. -/
theorem receive_of_created {created : Wallet} (htoken : r.token = .ok token)
    (hunit : (tokenUnit token).getD .sat = m.unit) (hurl : tokenMintUrl token = .ok mintUrl)
    (hmint : m.hasMint mintUrl = false) (hallow : opts.allowUntrusted = true)
    (hcreated : r.createWallet mintUrl = .ok created) :
    ∃ w, Adds m opts r w ∧ ((receive opts r m).2.wallets = (m.insert w).wallets ∨
      ∃ call targetMint, Passes m opts r w call targetMint ∧
        (receive opts r m).2.wallets = ((m.insert w).removeMint w.mintUrl).wallets ∧
        Removes (m.insert w) r w call targetMint (receive opts r m).2.store) := by
  have hadds : Adds m opts r (createdWallet m mintUrl created) :=
    ⟨token, created, htoken, hunit, hurl, hmint, hallow, hcreated, rfl⟩
  have hfind : (m.insert (createdWallet m mintUrl created)).wallets.find? mintUrl =
      some (createdWallet m mintUrl created) := by
    rw [Multi.insert, Table.find?_upsert]
    exact if_pos rfl
  have hadded : addMint r mintUrl m =
      (.ok (), m.insert (createdWallet m mintUrl created)) := by
    rw [addMint, hcreated]
    rfl
  rw [receive_of_untrusted htoken hunit hurl hmint hallow, Proc.bind_of_ok hadded]
  refine ⟨_, hadds, ?_⟩
  rcases @leaves_receiveToken _ _ opts r _ token mintUrl opts.transferToMint hfind with
    hsame | ⟨targetMint, keysetsInfo, proofs, htransfers, hkeysets, hproofs, hremoved, hremoves⟩
  · exact .inl hsame
  · exact .inr ⟨_, targetMint, ⟨hadds, htransfers,
      ⟨token, keysetsInfo, htoken, hkeysets, hproofs⟩, rfl, rfl⟩, hremoved, hremoves⟩

/-- The wallets stay, or one is added, which may be removed again. -/
theorem receive_cases :
    ((receive opts r m).2.wallets = m.wallets ∧ ∀ w, ¬Adds m opts r w) ∨
    (∃ w, Adds m opts r w ∧ (receive opts r m).2.wallets = (m.insert w).wallets) ∨
    ∃ w call targetMint, Passes m opts r w call targetMint ∧
      (receive opts r m).2.wallets = ((m.insert w).removeMint w.mintUrl).wallets ∧
      Removes (m.insert w) r w call targetMint (receive opts r m).2.store := by
  cases htoken : r.token with
  | err e =>
      refine .inl ⟨?_, fun w => not_adds_of_token (by rw [htoken]; rintro _ ⟨⟩)⟩
      rw [receive, htoken]
      rfl
  | panic =>
      refine .inl ⟨?_, fun w => not_adds_of_token (by rw [htoken]; rintro _ ⟨⟩)⟩
      rw [receive, htoken]
      rfl
  | ok token =>
      by_cases hunit : (tokenUnit token).getD .sat = m.unit
      · cases hurl : tokenMintUrl token with
        | err e =>
            refine .inl ⟨?_, fun w h => by cases hurl.symm.trans (h.url_eq htoken)⟩
            rw [receive_of_unit htoken hunit, hurl]
            rfl
        | panic =>
            refine .inl ⟨?_, fun w h => by cases hurl.symm.trans (h.url_eq htoken)⟩
            rw [receive_of_unit htoken hunit, hurl]
            rfl
        | ok mintUrl =>
            cases hmint : m.hasMint mintUrl with
            | true =>
                refine .inl ⟨wallets_of_hasMint htoken hunit hurl hmint, fun w h => ?_⟩
                exact Bool.false_ne_true ((h.of_url htoken hurl).1.symm.trans hmint)
            | false =>
                cases hallow : opts.allowUntrusted with
                | false =>
                    refine .inl ⟨?_, fun w h => ?_⟩
                    · rw [receive_of_unit htoken hunit, hurl]
                      change ((Proc.lift (.ensure (m.hasMint mintUrl || opts.allowUntrusted)
                        (Error.unknownMint mintUrl)) >>= _) m).2.wallets = _
                      rw [hmint, hallow]
                      rfl
                    · cases hallow.symm.trans (h.of_url htoken hurl).2.1
                | true =>
                    cases hcreated : r.createWallet mintUrl with
                    | err e =>
                        refine .inl ⟨?_, fun w h => ?_⟩
                        · rw [receive_of_untrusted htoken hunit hurl hmint hallow, addMint,
                            hcreated]
                          rfl
                        · obtain ⟨-, -, created, hmade⟩ := h.of_url htoken hurl
                          cases hcreated.symm.trans hmade
                    | panic =>
                        refine .inl ⟨?_, fun w h => ?_⟩
                        · rw [receive_of_untrusted htoken hunit hurl hmint hallow, addMint,
                            hcreated]
                          rfl
                        · obtain ⟨-, -, created, hmade⟩ := h.of_url htoken hurl
                          cases hcreated.symm.trans hmade
                    | ok created =>
                        obtain ⟨w, hadds, hsame | ⟨call, targetMint, hpasses, hremoved⟩⟩ :=
                          receive_of_created htoken hunit hurl hmint hallow hcreated
                        · exact .inr (.inl ⟨w, hadds, hsame⟩)
                        · exact .inr (.inr ⟨w, call, targetMint, hpasses, hremoved⟩)
      · refine .inl ⟨?_, fun w h => ?_⟩
        · rw [receive, htoken]
          change ((Proc.lift (.ensure (decide ((tokenUnit token).getD .sat = m.unit))
            Error.unitMismatch) >>= _) m).2.wallets = _
          rw [decide_eq_false hunit]
          rfl
        · obtain ⟨token', _, htoken', hunit', -⟩ := h
          cases htoken.symm.trans htoken'
          exact hunit hunit'

/-- Behind an exit that removes the mint it has no balance, if the calls are safe. -/
theorem unspentInfos_of_removes (h : Safe m opts r) {call : Wallet.ReceiveCall SecretKey}
    {targetMint : String} {s : Wallet.Store} (hpasses : Passes m opts r w call targetMint)
    (hremoves : Removes (m.insert w) r w call targetMint s) :
    ∀ info ∈ w.unspentInfos s, info.proof.amount = .zero := by
  intro info hinfo
  cases hremoves with
  | failed hreceived =>
      obtain ⟨hbefore, hnot⟩ := (Wallet.mem_unspentInfos_of_failed hreceived).mp hinfo
      rcases h.failed w call targetMint _ s hpasses hreceived info hbefore with hzero |
        ⟨received, hok, hy⟩
      · exact hzero
      · exact absurd hy (hnot received hok)
  | unknown hreceived habsent =>
      rcases h.known w call targetMint _ s hpasses hreceived with hknown | ⟨hbefore, hsignatures⟩
      · rw [Multi.hasMint, habsent] at hknown
        cases hknown
      · rcases unspentInfos_received hreceived hinfo with ⟨hold, hnot⟩ |
          ⟨signatures, hsigns, signature, hsignature, hamount⟩
        · rcases hbefore info hold with hzero | ⟨received, hok, hy⟩
          · exact hzero
          · exact absurd hy (hnot received hok)
        · rw [← hamount]
          exact hsignatures signatures hsigns signature hsignature
  | transferred hreceived hfound hdone =>
      obtain ⟨hother, hall⟩ := h.emptied w call targetMint _ _ _ _ _ hpasses hreceived hfound hdone
      have hurl := (Table.find?_eq_some.mp hfound).2
      exact unspentInfos_transfer (hurl.trans_ne hother) hall hdone info hinfo
  | unfunded hreceived hfound hlacks hinsufficient =>
      have hzero := h.funded w call targetMint _ _ _ _ _ hpasses hreceived hfound hlacks
        hinsufficient
      rw [transfer_of_zero hzero] at hlacks
      cases hlacks
      exact Wallet.unspentTotal_eq_zero.mp hzero info hinfo

/-- A call hides no money if a mint that is only added for a transfer is removed without a
balance. -/
theorem hidesNothing_of_removes (h : ∀ w call targetMint s, Passes m opts r w call targetMint →
    Removes (m.insert w) r w call targetMint s →
      ∀ info ∈ w.unspentInfos s, info.proof.amount = .zero) : HidesNothing m opts r := by
  intro w hunit hknown hbalance
  rcases @receive_cases _ m opts r with ⟨hsame, hnone⟩ | ⟨added, hadds, hsame⟩ |
    ⟨added, call, targetMint, hpasses, hremoved, hremoves⟩
  · rcases hknown with hmint | ⟨added, hadds, -⟩
    · rwa [Multi.hasMint, hsame]
    · exact absurd hadds (hnone added)
  · rw [Multi.hasMint, hsame]
    refine hasMint_insert.mpr ?_
    rcases hknown with hmint | ⟨added', hadds', hurl⟩
    · exact .inr hmint
    · exact .inl ((hadds.mintUrl_eq hadds').trans hurl)
  · rw [Multi.hasMint, hremoved]
    refine hasMint_removeMint.mpr ⟨fun hurl => hbalance ?_, hasMint_insert.mpr ?_⟩
    · rw [Wallet.unspentTotal_eq_zero]
      have haddedUnit : added.unit = m.unit := by
        obtain ⟨_, _, -, -, -, -, -, -, heq⟩ := hpasses.adds
        rw [heq]
        rfl
      intro info hinfo
      apply h added call targetMint _ hpasses hremoves info
      rw [Wallet.mem_unspentInfos] at hinfo ⊢
      rwa [← hurl, haddedUnit, ← hunit]
    · rcases hknown with hmint | ⟨added', hadds', hurl⟩
      · exact .inr hmint
      · exact .inl ((hpasses.adds.mintUrl_eq hadds').trans hurl)

/-- A call that is to empty a mint runs with the wallet of it. -/
theorem receive_of_passes {call : Wallet.ReceiveCall SecretKey} {targetMint : String}
    (h : Passes m opts r w call targetMint) :
    receive opts r m = (do
      let amount ← receiveOrRemove w r.receiving call true
      transferAndRemove w r.transferring targetMint
      pure amount : Proc Multi Error Amount) (m.insert w) := by
  obtain ⟨⟨token, created, htoken, hunit, hurl, hmint, hallow, hcreated, hw⟩, htransfers,
    ⟨token', keysetsInfo, htoken', hkeysets, hproofs⟩, hopts, htarget⟩ := h
  cases htoken.symm.trans htoken'
  have hadded : addMint r w.mintUrl m = (.ok (), m.insert w) := by
    rw [addMint, hcreated, hw]
    rfl
  have hread : (Proc.read fun m : Multi =>
      Outcome.ofOption (Error.unknownMint w.mintUrl) (m.wallets.find? w.mintUrl)) (m.insert w) =
        (.ok w, m.insert w) := by
    rw [Proc.read_run, Multi.insert, Table.find?_upsert, if_pos rfl]
    rfl
  have hcall : call = ⟨call.proofs, opts.receiveOptions, opts.amountSplitTarget⟩ := by
    rw [← hopts, ← htarget]
  rw [receive_of_untrusted htoken hunit hurl hmint hallow, Proc.bind_of_ok hadded, receiveToken,
    Proc.bind_of_ok hread, hkeysets, Proc.lift_bind_of_ok (Outcome.mapErr_eq_ok.mpr rfl), hproofs,
    Proc.lift_bind_of_ok (Outcome.mapErr_eq_ok.mpr rfl), htransfers, ← hcall]
  rfl

/-- A removed mint has no balance, if nothing is hidden. -/
theorem unspentTotal_of_removed (h : HidesNothing m opts r) {call : Wallet.ReceiveCall SecretKey}
    {targetMint : String} {s : Wallet.Store} (hpasses : Passes m opts r w call targetMint)
    (hremoved : (receive opts r m).2 = { m.insert w with store := s }.removeMint w.mintUrl) :
    w.unspentTotal s = 0 := by
  by_contra hbalance
  have hunit : w.unit = m.unit := by
    obtain ⟨_, _, -, -, -, -, -, -, hw⟩ := hpasses.adds
    rw [hw]
    rfl
  have hstore : (receive opts r m).2.store = s := by rw [hremoved]; rfl
  have hkept := h w hunit (.inr ⟨w, hpasses.adds, rfl⟩) (hstore.symm ▸ hbalance)
  rw [hremoved] at hkept
  exact (hasMint_removeMint.mp hkept).1 rfl

theorem keepsOnFailure_of_hidesNothing (h : HidesNothing m opts r) : KeepsOnFailure m opts r := by
  intro w call targetMint e s' hpasses hreceived info hinfo
  have hrun : receiveOrRemove w r.receiving call true (m.insert w) =
      (.err (.receiveProofs e), { m.insert w with store := s' }.removeMint w.mintUrl) := by
    have hreceived : w.receiveProofs r.receiving call (m.insert w).store = (.err e, s') := hreceived
    rw [receiveOrRemove, hreceived]
    rfl
  have hzero := unspentTotal_of_removed h hpasses (s := s') (by
    rw [receive_of_passes hpasses, Proc.bind_of_err hrun])
  by_contra hworth
  push Not at hworth
  obtain ⟨hamount, hnot⟩ := hworth
  exact hamount (Wallet.unspentTotal_eq_zero.mp hzero info
    ((Wallet.mem_unspentInfos_of_failed hreceived).mpr ⟨hinfo, hnot⟩))

theorem receiveOrRemove_of_received {call : Wallet.ReceiveCall SecretKey} {amount : Amount}
    {s' : Wallet.Store} (h : w.receiveProofs r.receiving call m.store = (.ok amount, s')) :
    receiveOrRemove w r.receiving call true (m.insert w) =
      (.ok amount, { m.insert w with store := s' }) := by
  have hreceived : w.receiveProofs r.receiving call (m.insert w).store = (.ok amount, s') := h
  rw [receiveOrRemove, hreceived]

theorem keepsForUnknown_of_hidesNothing (h : HidesNothing m opts r) :
    KeepsForUnknown m opts r := by
  intro w call targetMint amount s' received hpasses hreceived hunknown hinj hahead hsigned hstored
    hforeign
  have hremoved : transferAndRemove w r.transferring targetMint
      { m.insert w with store := s' } =
        (.err (.unknownMint targetMint), { m.insert w with store := s' }.removeMint w.mintUrl) := by
    have hunknown : ({ m.insert w with store := s' } : Multi).wallets.find? targetMint = none :=
      hunknown
    rw [transferAndRemove, hunknown]
  have hzero := Wallet.unspentTotal_eq_zero.mp (unspentTotal_of_removed h hpasses (by
    rw [receive_of_passes hpasses, Proc.bind_of_ok (receiveOrRemove_of_received hreceived),
      Proc.bind_of_err hremoved]))
  obtain ⟨recvInfos, hreceives⟩ :=
    Wallet.receives hinj hahead hsigned hstored hforeign hreceived
  constructor
  · intro info hinfo
    by_cases hy : info.y ∈ received.infos.map ProofInfo.y
    · exact .inr ⟨received, hstored, hy⟩
    · exact .inl (hzero info ((hreceives.balance info).mpr (.inr ⟨hinfo, hy⟩)))
  · intro signatures hsigns signature hsignature
    have hnothing : Amount.total (signatures.map BlindSignature.amount) = 0 := by
      rw [total_signsReceived hreceived hsigns, hreceives.total, Wallet.total_eq_zero]
      intro a ha
      obtain ⟨info, hinfo, rfl⟩ := List.mem_map.mp ha
      exact hzero info ((hreceives.balance info).mpr (.inl hinfo))
    exact Wallet.total_eq_zero.mp hnothing _ (List.mem_map_of_mem hsignature)

theorem keepsUnquoted_of_hidesNothing (h : HidesNothing m opts r) : KeepsUnquoted m opts r := by
  intro w call targetMint amount s' target balance e hpasses hreceived htarget hbalance hquote
    hlacks
  have htransfer : transfer w target r.transferring s' = (.err e, s') := by
    rw [transfer, Proc.bind_of_ok hbalance, Proc.lift_bind_of_err hquote]
  have hremoved : transferAndRemove w r.transferring targetMint
      { m.insert w with store := s' } =
        (.ok (), { m.insert w with store := s' }.removeMint w.mintUrl) := by
    have htarget : ({ m.insert w with store := s' } : Multi).wallets.find? targetMint =
        some target := htarget
    rw [transferAndRemove, htarget]
    dsimp only
    rw [htransfer]
    dsimp only
    rw [if_pos hlacks]
  exact unspentTotal_of_removed h hpasses (by
    rw [receive_of_passes hpasses, Proc.bind_of_ok (receiveOrRemove_of_received hreceived),
      Proc.bind_of_ok hremoved]
    rfl)

/-- For all wallets, options and answers: a call hides no money if a failing one leaves nothing from
before, the target is known, and the transfer ends with all the money paid, or with another error
than a lack of funds. What that asks of a failing receiving, of an unknown target and of a transfer
without a quote is also needed. -/
theorem hidesNothing_of_safe :
    (Safe m opts r → HidesNothing m opts r) ∧
      (HidesNothing m opts r →
        KeepsOnFailure m opts r ∧ KeepsForUnknown m opts r ∧ KeepsUnquoted m opts r) :=
  ⟨fun h => hidesNothing_of_removes fun _ _ _ _ hpasses hremoves =>
      unspentInfos_of_removes h hpasses hremoves,
    fun h => ⟨keepsOnFailure_of_hidesNothing h, keepsForUnknown_of_hidesNothing h,
      keepsUnquoted_of_hidesNothing h⟩⟩

end Main

/-! ## Transfers to a known and an unknown mint -/

def mintWallet : Wallet :=
  { Wallet.meltWallet with
    env := { Wallet.pointEnv with
      hashToCurve := fun bytes => some ⟨false, BitVec.ofNat 256 (bytes.map UInt8.toNat).sum⟩ } }

def targetWallet : Wallet := { mintWallet with mintUrl := "https://target.example" }

/-- Answers of a mint that signs every output. -/
def sampleMintReplies : Wallet.MintReplies where
  refreshKeysets := mintWallet.refreshKeysets
  fetchActiveKeyset := mintWallet.fetchActiveKeyset
  getActiveKeyset := mintWallet.getActiveKeyset
  activeKeysetIds := mintWallet.activeKeysetIds
  keysetFeesAndAmounts := mintWallet.keysetFeesAndAmounts
  keysets := mintWallet.keysets
  keys := mintWallet.keys
  postSwap := mintWallet.postSwap

/-- A transfer of four with a reserve of two, all of which the payment costs. -/
def sampleTransfer : TransferReplies where
  dummyMintQuote _ := .ok ⟨"dummy", "lnbc6"⟩
  probeMeltQuote _ := .ok ("probe", ⟨⟨6, 2, 1, .bolt11⟩, .sat⟩)
  finalMintQuote _ := .ok ⟨"final", "lnbc4"⟩
  finalMeltQuote _ := .ok ("melt", ⟨⟨4, 2, 1, .bolt11⟩, .sat⟩)
  melting := {
    order := Selection.insertionOrder
    feeOrder := Selection.insertionOrder
    checkedAt := 0
    sentAt := 0
    refreshKeysets := mintWallet.activeKeysetIds
    keysetFeesAndAmounts := mintWallet.keysetFeesAndAmounts
    exchanging := sampleMintReplies
    melting := sampleMintReplies
    storedKeys := Wallet.sampleKeys
    postMelt := fun _ => .ok ⟨.paid, none, none⟩
    postCheckState := fun _ => .ok []
    reclaiming := sampleMintReplies }
  paid := true
  issuing := ⟨sampleMintReplies, some (4, .sat), fun messages => .ok (messages.map fun message =>
    ⟨message.amount, message.keysetId, message.blindedSecret⟩), fun _ => .ok ()⟩

/-- A token of four. -/
def sampleReplies : Replies Unit where
  token := .ok (.tokenV4 ⟨"https://mint.example", .sat, none,
    [Tokens.TokenV4Token.new (.v1 1) [⟨Wallet.inputProof 4 "a", none⟩]]⟩)
  createWallet _ := .ok mintWallet
  keysets := .ok [⟨.v1 1, .sat, true, 0, none⟩]
  receiving := {
    curve := ⟨fun _ => ⟨false, 1⟩, fun _ _ _ => 0⟩
    aux := fun _ _ => 0
    loadKeysetKeys := fun _ => .ok fun _ => some ⟨false, 1⟩
    verifyDleqs := fun _ => .ok ()
    postSwap := fun posted => .ok (posted.request.outputs.map fun message =>
      ⟨message.amount, message.keysetId, message.blindedSecret⟩) }
  transferring := sampleTransfer

def sampleOptions : ReceiveOptions Unit :=
  ⟨true, some "https://target.example", ⟨[], []⟩, .none⟩

def sampleCall : Wallet.ReceiveCall Unit := ⟨[⟨Wallet.inputProof 4 "a", none⟩], ⟨[], []⟩, .none⟩

/-- The wallet of the target, and an unspent proof of two that is left of the mint. -/
def targetMulti : Multi where
  unit := .sat
  wallets := ⟨[targetWallet], List.nodup_singleton _⟩
  store := ⟨⟨[⟨⟨Wallet.inputProof 2 "b", none⟩, ⟨false, 98⟩, "https://mint.example", .unspent, none,
    .sat⟩], List.nodup_singleton _⟩, fun _ => 0⟩

theorem passes_sample {w : Wallet} {call : Wallet.ReceiveCall Unit} {targetMint : String}
    (h : Passes targetMulti sampleOptions sampleReplies w call targetMint) :
    w = mintWallet ∧ call = sampleCall ∧ targetMint = "https://target.example" := by
  obtain ⟨⟨_, _, htoken, -, hurl, -, -, hcreated, hw⟩, htransfers,
    ⟨_, _, htoken', hkeysets, hproofs⟩, hopts, htarget⟩ := h
  cases htoken
  cases htoken'
  cases hkeysets
  cases hcreated
  have hurl : w.mintUrl = "https://mint.example" := (Outcome.ok.inj hurl).symm
  rw [hurl] at hw
  have hsample : (Tokens.Token.tokenV4 ⟨"https://mint.example", .sat, none,
      [Tokens.TokenV4Token.new (.v1 1) [⟨Wallet.inputProof 4 "a", none⟩]]⟩).proofs
        [⟨.v1 1, .sat, true, 0, none⟩] = .ok sampleCall.proofs := by
    decide +kernel
  obtain ⟨proofs, callOptions, target⟩ := call
  cases hopts
  cases htarget
  cases hproofs.symm.trans hsample
  exact ⟨hw, rfl, (Option.some.inj htransfers).symm⟩

/-- The store behind the receiving. -/
def receivedStore : Wallet.Store :=
  (mintWallet.receiveProofs sampleReplies.receiving sampleCall targetMulti.store).2

theorem received_sample :
    mintWallet.receiveProofs sampleReplies.receiving sampleCall targetMulti.store =
      (.ok 4, receivedStore) :=
  Prod.ext (by decide +kernel) rfl

theorem transferred_sample :
    (transfer mintWallet targetWallet sampleTransfer receivedStore).1 = .ok 6 := by
  decide +kernel

/-- All six are inputs of the melt. -/
theorem paysWithAll_sample : PaysWithAll mintWallet sampleTransfer receivedStore := by
  have hasked {quote : String × StoredMeltQuote}
      (h : AsksFor mintWallet sampleTransfer receivedStore quote) :
      quote = ("melt", ⟨⟨4, 2, 1, .bolt11⟩, .sat⟩) := by
    obtain ⟨balance, -, hquote⟩ := h
    simp only [fullBalanceQuote, Outcome.bind_eq_ok, Outcome.mapErr_eq_ok] at hquote
    obtain ⟨_, -, _, -, _, -, _, -, _, -, _, -, hfinal⟩ := hquote
    exact (Outcome.ok.inj hfinal).symm
  constructor
  · intro quote inputs s' hasks hinputs ys hys
    cases hasked hasks
    obtain ⟨hprepared, rfl⟩ := Prod.ext_iff.mp hinputs
    have hboth : (mintWallet.prepareMelt sampleTransfer.melting
        (some ⟨⟨4, 2, 1, .bolt11⟩, .sat⟩) receivedStore).1 =
          .ok [⟨4, .v1 1, hexDigits 64 0, ⟨false, 1⟩, none⟩, Wallet.inputProof 2 "b"] := by
      decide +kernel
    cases hboth.symm.trans hprepared
    have hpoints : mintWallet.ys
        [⟨4, .v1 1, hexDigits 64 0, ⟨false, 1⟩, none⟩, Wallet.inputProof 2 "b"] =
          .ok [⟨false, 3072⟩, ⟨false, 98⟩] := by
      decide +kernel
    cases hpoints.symm.trans hys
    decide +kernel
  · intro quote inputs s' sent s'' response change _ _ _ hresponse hchange
    cases hresponse
    cases hchange

theorem safe_sample : Safe targetMulti sampleOptions sampleReplies where
  failed := by
    intro w call targetMint e s' hpasses hreceived
    obtain ⟨rfl, rfl, rfl⟩ := passes_sample hpasses
    cases received_sample.symm.trans hreceived
  known := by
    intro w call targetMint amount s' hpasses _
    obtain ⟨rfl, rfl, rfl⟩ := passes_sample hpasses
    exact .inl (by decide +kernel)
  funded := by
    intro w call targetMint amount s' target e s'' hpasses hreceived htarget hlacks
    obtain ⟨rfl, rfl, rfl⟩ := passes_sample hpasses
    cases received_sample.symm.trans hreceived
    have hfound : (targetMulti.insert mintWallet).wallets.find? "https://target.example" =
        some targetWallet := rfl
    cases hfound.symm.trans htarget
    cases transferred_sample.symm.trans (congrArg Prod.fst hlacks)
  emptied := by
    intro w call targetMint amount s' target sent s'' hpasses hreceived _ _
    obtain ⟨rfl, rfl, rfl⟩ := passes_sample hpasses
    cases received_sample.symm.trans hreceived
    exact ⟨by decide, paysWithAll_sample⟩

/-- The mint is removed behind a transfer that leaves nothing. -/
theorem hidesNothing_of_safe_sample :
    (receive sampleOptions sampleReplies targetMulti).1 = .ok 4 ∧
      (receive sampleOptions sampleReplies targetMulti).2.hasMint "https://mint.example" = false ∧
      HidesNothing targetMulti sampleOptions sampleReplies :=
  ⟨by decide +kernel, by decide +kernel, hidesNothing_of_safe.1 safe_sample⟩

def sampleMulti : Multi := ⟨.sat, .empty, Wallet.emptyStore⟩

theorem adds_sample : Adds sampleMulti sampleOptions sampleReplies mintWallet :=
  ⟨_, _, rfl, rfl, rfl, rfl, rfl, rfl, rfl⟩

/-- The proofs are received, the target is not found, and the mint is removed with its balance. -/
theorem not_hidesNothing : ¬ ∀ (m : Multi) (opts : ReceiveOptions Unit) (r : Replies Unit),
    HidesNothing m opts r := by
  intro h
  have hhides := h sampleMulti sampleOptions sampleReplies mintWallet rfl
    (.inr ⟨_, adds_sample, rfl⟩)
  have hbalance : mintWallet.unspentTotal
      (receive sampleOptions sampleReplies sampleMulti).2.store = 4 := by
    decide +kernel
  have hremoved : (receive sampleOptions sampleReplies sampleMulti).2.hasMint
      "https://mint.example" = false := by
    decide +kernel
  have hkept := hhides (by rw [hbalance]; decide)
  exact Bool.false_ne_true (hremoved.symm.trans hkept)

end MultiReceive

end Cdk
