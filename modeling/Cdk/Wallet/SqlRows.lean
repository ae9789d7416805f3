import Cdk.Wallet.SqlColumns

/-!
# Rows of the SQL wallet store

Every statement that writes a record turns its fields into the values of named
columns. Every query selects columns by name, and a function reads the values
again by their position. A row is a value for each column of its table.
-/

namespace Cdk

open Lib
open Std (ExtTreeMap)

namespace SqlWallet

variable {T : Type}

/-! ## Mint quotes -/

/-- `MintQuote` of the wallet. -/
structure MintQuote where
  id : String
  mintUrl : String
  paymentMethod : PaymentMethod
  amount : Option Amount
  unit : CurrencyUnit
  request : String
  state : MintQuoteState
  expiry : Nat
  secretKey : Option (BitVec 256)
  amountIssued : Amount
  amountPaid : Amount
deriving DecidableEq, Repr

/-- The table `mint_quote`. -/
structure MintQuoteRow where
  id : Value
  mintUrl : Value
  amount : Value
  unit : Value
  request : Value
  state : Value
  expiry : Value
  secretKey : Value
  paymentMethod : Value
  amountIssued : Value
  amountPaid : Value
deriving DecidableEq, Repr

/-- The values that `add_mint_quote` binds. -/
def MintQuote.toRow (casing : Casing) (quote : MintQuote) : MintQuoteRow where
  id := .text quote.id
  mintUrl := .text quote.mintUrl
  amount := .ofOption (fun n : Nat => .integer n) (quote.amount.bind Amount.toI64)
  unit := .text (quote.unit.toText casing)
  request := .text quote.request
  state := .text quote.state.toText
  expiry := .integer (asI64 quote.expiry)
  secretKey := .ofOption (fun key => .text (hexDigits 64 key.toNat)) quote.secretKey
  paymentMethod := .text quote.paymentMethod.toText
  amountIssued := .ofOption (fun n : Nat => .integer n) quote.amountIssued.toI64
  amountPaid := .ofOption (fun n : Nat => .integer n) quote.amountPaid.toI64

/-- The columns of `mint_quote` that are `NOT NULL`. -/
def MintQuoteRow.allowed (row : MintQuoteRow) : Bool :=
  [row.mintUrl, row.unit, row.request, row.state, row.expiry, row.amountPaid, row.amountIssued,
    row.paymentMethod].all (· != .null)

/-- The columns that `get_mint_quote` selects. -/
def MintQuoteRow.columns (row : MintQuoteRow) : List Value :=
  [row.id, row.mintUrl, row.amount, row.unit, row.request, row.state, row.expiry, row.secretKey,
    row.paymentMethod, row.amountIssued, row.amountPaid]

/-- The columns that `get_mint_quotes` selects. Without a comma between them `secret_key
payment_method` is the secret key under another name. -/
def MintQuoteRow.listColumns (row : MintQuoteRow) : List Value :=
  [row.id, row.mintUrl, row.amount, row.unit, row.request, row.state, row.expiry, row.secretKey,
    row.amountIssued, row.amountPaid]

/-- `sql_row_to_mint_quote`. -/
def sqlRowToMintQuote (env : RowEnv) : List Value → Outcome Error MintQuote
  | id :: mintUrl :: amount :: unit :: request :: state :: expiry :: secretKey :: rowMethod ::
      rowAmountMinted :: rowAmountPaid :: _ => do
      let amount ← nullableAmountColumn amount
      let amountPaid ← columnAsAmount "row_amount_paid" rowAmountPaid
      let amountMinted ← columnAsAmount "row_amount_minted" rowAmountMinted
      let paymentMethod ← env.methodColumn rowMethod
      let id ← env.stringColumn "id" id
      let mintUrl ← env.mintUrlColumn mintUrl
      let unit ← env.unitColumn unit
      let request ← env.stringColumn "request" request
      let state ← env.columnAsWith MintQuoteState.fromStr "state" state
      let expiry ← columnAsU64 "expiry" expiry
      let secretKey ← env.secretKeyColumn secretKey
      .ok ⟨id, mintUrl, paymentMethod, amount, unit, request, state, expiry, secretKey,
        amountMinted, amountPaid⟩
  | row => .err (.conversion (.missingColumn 11 row.length))

/-- The fields of a mint quote that go through a library are read as they were written, and its
numbers fit their columns. -/
structure MintQuote.Encodable (env : RowEnv) (quote : MintQuote) : Prop where
  amount : ∀ a ∈ quote.amount, a.toNat < 2 ^ 63
  expiry : quote.expiry < 2 ^ 63
  secretKey : ∀ key ∈ quote.secretKey, env.secretKeyFromStr (hexDigits 64 key.toNat) = some key
  amountIssued : quote.amountIssued.toNat < 2 ^ 63
  amountPaid : quote.amountPaid.toNat < 2 ^ 63

variable {env : RowEnv}

theorem sqlRowToMintQuote_columns {quote : MintQuote} (h : quote.Encodable env)
    (hurl : env.NormalUrl quote.mintUrl) (hunit : quote.unit.Canonical env.casing)
    (hmethod : quote.paymentMethod.Canonical env.casing) :
    sqlRowToMintQuote env (quote.toRow env.casing).columns = .ok quote := by
  obtain ⟨id, mintUrl, paymentMethod, amount, unit, request, state, expiry, secretKey, amountIssued,
    amountPaid⟩ := quote
  obtain ⟨hamount, hexpiry, hkey, hissued, hpaid⟩ := h
  dsimp only at hurl hamount hexpiry hkey hissued hpaid hunit hmethod
  simp only [MintQuoteRow.columns, MintQuote.toRow, sqlRowToMintQuote, Outcome.bind_ok,
    nullableAmountColumn_toI64 hamount, columnAsAmount_toI64 hissued, columnAsAmount_toI64 hpaid,
    RowEnv.methodColumn_text hmethod, RowEnv.mintUrlColumn_text hurl, RowEnv.unitColumn_text hunit,
    RowEnv.columnAsWith_text (MintQuoteState.fromStr_toText state), columnAsU64_asI64 hexpiry,
    RowEnv.secretKeyColumn_ofOption hkey, RowEnv.stringColumn, columnAsString]

/-! ## Melt quotes -/

/-- `MeltQuote` of the wallet. -/
structure MeltQuote where
  id : String
  unit : CurrencyUnit
  amount : Amount
  request : String
  feeReserve : Amount
  state : MeltQuoteState
  expiry : Nat
  paymentPreimage : Option String
  paymentMethod : PaymentMethod
deriving DecidableEq, Repr

/-- The table `melt_quote`. -/
structure MeltQuoteRow where
  id : Value
  unit : Value
  amount : Value
  request : Value
  feeReserve : Value
  state : Value
  expiry : Value
  paymentPreimage : Value
  paymentMethod : Value
deriving DecidableEq, Repr

/-- The row that `add_melt_quote` inserts. It binds no preimage, so the column has its default. -/
def MeltQuote.toRow (casing : Casing) (quote : MeltQuote) : MeltQuoteRow where
  id := .text quote.id
  unit := .text (quote.unit.toText casing)
  amount := .integer (asI64 quote.amount.toNat)
  request := .text quote.request
  feeReserve := .integer (asI64 quote.feeReserve.toNat)
  state := .text quote.state.toText
  expiry := .integer (asI64 quote.expiry)
  paymentPreimage := .null
  paymentMethod := .text quote.paymentMethod.toText

/-- What `ON CONFLICT(id) DO UPDATE SET` of `add_melt_quote` makes of a row. -/
def MeltQuoteRow.onConflict (row excluded : MeltQuoteRow) : MeltQuoteRow :=
  { excluded with id := row.id, paymentPreimage := row.paymentPreimage }

/-- The columns of `melt_quote` that are `NOT NULL`, and the states that its check admits. -/
def MeltQuoteRow.allowed (row : MeltQuoteRow) : Bool :=
  [row.unit, row.amount, row.request, row.feeReserve, row.state, row.expiry,
    row.paymentMethod].all (· != .null) &&
  [Value.text "UNPAID", .text "PENDING", .text "PAID"].contains row.state

/-- The columns that `get_melt_quote` and `get_melt_quotes` select. -/
def MeltQuoteRow.columns (row : MeltQuoteRow) : List Value :=
  [row.id, row.unit, row.amount, row.request, row.feeReserve, row.state, row.expiry,
    row.paymentPreimage, row.paymentMethod]

/-- `sql_row_to_melt_quote`. -/
def sqlRowToMeltQuote (env : RowEnv) : List Value → Outcome Error MeltQuote
  | id :: unit :: amount :: request :: feeReserve :: state :: expiry :: paymentPreimage ::
      rowMethod :: _ => do
      let amount ← columnAsAmount "amount" amount
      let feeReserve ← columnAsAmount "fee_reserve" feeReserve
      let paymentMethod ← env.methodColumn rowMethod
      let id ← env.stringColumn "id" id
      let unit ← env.unitColumn unit
      let request ← env.stringColumn "request" request
      let state ← env.columnAsWith MeltQuoteState.fromStr "state" state
      let expiry ← columnAsU64 "expiry" expiry
      let paymentPreimage ← env.nullableStringColumn "payment_preimage" paymentPreimage
      .ok ⟨id, unit, amount, request, feeReserve, state, expiry, paymentPreimage, paymentMethod⟩
  | row => .err (.conversion (.missingColumn 9 row.length))

/-- The numbers of a melt quote fit their columns. -/
structure MeltQuote.Encodable (quote : MeltQuote) : Prop where
  amount : quote.amount.toNat < 2 ^ 63
  feeReserve : quote.feeReserve.toNat < 2 ^ 63
  expiry : quote.expiry < 2 ^ 63

theorem sqlRowToMeltQuote_columns {quote : MeltQuote} (h : quote.Encodable)
    (hunit : quote.unit.Canonical env.casing) (hmethod : quote.paymentMethod.Canonical env.casing)
    (hpreimage : quote.paymentPreimage = none) :
    sqlRowToMeltQuote env (quote.toRow env.casing).columns = .ok quote := by
  obtain ⟨id, unit, amount, request, feeReserve, state, expiry, paymentPreimage,
    paymentMethod⟩ := quote
  obtain ⟨hamount, hfee, hexpiry⟩ := h
  dsimp only at hamount hfee hexpiry hunit hmethod hpreimage
  subst hpreimage
  simp only [MeltQuoteRow.columns, MeltQuote.toRow, sqlRowToMeltQuote, Outcome.bind_ok,
    columnAsAmount_asI64 hamount, columnAsAmount_asI64 hfee, RowEnv.methodColumn_text hmethod,
    RowEnv.unitColumn_text hunit, RowEnv.columnAsWith_text (MeltQuoteState.fromStr_toText state),
    columnAsU64_asI64 hexpiry, RowEnv.stringColumn, columnAsString, RowEnv.nullableStringColumn,
    columnAsNullableString]

/-! ## Proofs -/

/-- The table `proof`. -/
structure ProofRow where
  y : Value
  mintUrl : Value
  state : Value
  spendingCondition : Value
  unit : Value
  amount : Value
  keysetId : Value
  secret : Value
  c : Value
  witness : Value
  dleqE : Value
  dleqS : Value
  dleqR : Value
deriving DecidableEq, Repr

/-- The bytes of a secret key of an optional proof of equal logarithms. -/
def dleqColumn (part : ProofDleq → BitVec 256) : Option ProofDleq → Value :=
  .ofOption fun dleq => .blob (bytesOf 32 (part dleq).toNat)

/-- The row that `update_proofs` inserts. -/
def proofRow (env : RowEnv) (info : ProofInfo) : ProofRow where
  y := .blob info.y.toBytes
  mintUrl := .text info.mintUrl
  state := .text info.state.toText
  spendingCondition :=
    .ofOption (fun c => .text (env.spendingConditions.toText c)) info.spendingCondition
  unit := .text (info.unit.toText env.casing)
  amount := .integer (asI64 info.proof.amount.toNat)
  keysetId := .text info.proof.keysetId.toText
  secret := .text info.proof.secret
  c := .blob info.proof.c.toBytes
  witness := .ofOption (fun w => .text (env.witness.toText w)) info.proof.witness
  dleqE := dleqColumn ProofDleq.e info.proof.dleq
  dleqS := dleqColumn ProofDleq.s info.proof.dleq
  dleqR := dleqColumn ProofDleq.r info.proof.dleq

/-- The columns that `get_proofs` selects. -/
def ProofRow.columns (row : ProofRow) : List Value :=
  [row.amount, row.unit, row.keysetId, row.secret, row.c, row.witness, row.dleqE, row.dleqS,
    row.dleqR, row.y, row.mintUrl, row.state, row.spendingCondition]

/-- The optional proof of equal logarithms, which needs all three columns. -/
def dleqOfColumns (env : RowEnv) (dleqE dleqS dleqR : Value) :
    Outcome Error (Option ProofDleq) := do
  let e ← columnAsNullableBinary "dleq_e" dleqE
  let s ← columnAsNullableBinary "dleq_s" dleqS
  let r ← columnAsNullableBinary "dleq_r" dleqR
  match e, s, r with
  | some e, some s, some r =>
      let e ← .ofOption .nut01 (env.secretKeyFromSlice e)
      let s ← .ofOption .nut01 (env.secretKeyFromSlice s)
      let r ← .ofOption .nut01 (env.secretKeyFromSlice r)
      .ok (some ⟨e, s, r⟩)
  | _, _, _ => .ok none

/-- `sql_row_to_proof_info`. -/
def sqlRowToProofInfo (env : RowEnv) : List Value → Outcome Error ProofInfo
  | amount :: unit :: keysetId :: secret :: c :: witness :: dleqE :: dleqS :: dleqR :: y ::
      mintUrl :: state :: spendingCondition :: _ => do
      let dleq ← dleqOfColumns env dleqE dleqS dleqR
      let amount ← columnAsAmount "amount" amount
      let keysetId ← env.columnAsWith Id.fromStr "keyset_id" keysetId
      let secret ← env.columnAsWith some "secret" secret
      let witness ← columnAsNullableParsed env.witness.fromStr env.witness.fromSlice
        "witness" witness
      let c ← env.publicKeyColumn "c" c
      let y ← env.publicKeyColumn "y" y
      let mintUrl ← env.mintUrlColumn mintUrl
      let state ← env.columnAsWith State.fromStr "state" state
      let spendingCondition ← columnAsNullableParsed env.spendingConditions.fromStr
        env.spendingConditions.fromSlice "spending_condition" spendingCondition
      let unit ← env.unitColumn unit
      .ok ⟨⟨⟨amount, keysetId, secret, c, witness⟩, dleq⟩, y, mintUrl, state, spendingCondition,
        unit⟩
  | row => .err (.conversion (.missingColumn 13 row.length))

/-- The fields of a proof that go through a library are read as they were written, and its amount
fits its column. -/
structure ProofEncodable (env : RowEnv) (info : ProofInfo) : Prop where
  amount : info.proof.amount.toNat < 2 ^ 63
  c : env.ReadsPublicKey info.proof.c
  y : env.ReadsPublicKey info.y
  witness : ∀ w ∈ info.proof.witness, env.witness.RoundTrips w
  spendingCondition : ∀ c ∈ info.spendingCondition, env.spendingConditions.RoundTrips c
  dleq : ∀ dleq ∈ info.proof.dleq,
    env.ReadsSecretKey dleq.e ∧ env.ReadsSecretKey dleq.s ∧ env.ReadsSecretKey dleq.r

theorem publicKeyColumn_blob {key : PublicKey} (h : env.ReadsPublicKey key) (column : String) :
    env.publicKeyColumn column (.blob key.toBytes) = .ok key := by
  rw [RowEnv.ReadsPublicKey] at h
  simp [RowEnv.publicKeyColumn, columnAsParsed, h, Outcome.ofOption]

theorem dleqOfColumns_dleqColumn {dleq : Option ProofDleq}
    (h : ∀ d ∈ dleq, env.ReadsSecretKey d.e ∧ env.ReadsSecretKey d.s ∧ env.ReadsSecretKey d.r) :
    dleqOfColumns env (dleqColumn ProofDleq.e dleq) (dleqColumn ProofDleq.s dleq)
      (dleqColumn ProofDleq.r dleq) = .ok dleq := by
  cases dleq with
  | none => rfl
  | some d =>
      obtain ⟨he, hs, hr⟩ := h d rfl
      rw [RowEnv.ReadsSecretKey] at he hs hr
      simp [dleqOfColumns, dleqColumn, Value.ofOption, columnAsNullableBinary, he, hs, hr,
        Outcome.ofOption]

theorem sqlRowToProofInfo_columns {info : ProofInfo} (h : ProofEncodable env info)
    (hurl : env.NormalUrl info.mintUrl) (hunit : info.unit.Canonical env.casing) :
    sqlRowToProofInfo env (proofRow env info).columns = .ok info := by
  obtain ⟨⟨⟨amount, keysetId, secret, c, witness⟩, dleq⟩, y, mintUrl, state, spendingCondition,
    unit⟩ := info
  obtain ⟨hamount, hc, hy, hwitness, hcondition, hdleq⟩ := h
  dsimp only at hamount hc hy hurl hwitness hcondition hdleq hunit
  simp only [ProofRow.columns, proofRow, sqlRowToProofInfo, Outcome.bind_ok,
    dleqOfColumns_dleqColumn hdleq, columnAsAmount_asI64 hamount,
    RowEnv.columnAsWith_text (Id.fromStr_toText keysetId), RowEnv.columnAsWith_text rfl,
    columnAsNullableParsed_ofOption hwitness, publicKeyColumn_blob hc, publicKeyColumn_blob hy,
    RowEnv.mintUrlColumn_text hurl, RowEnv.columnAsWith_text (State.fromStr_toText state),
    columnAsNullableParsed_ofOption hcondition, RowEnv.unitColumn_text hunit]

/-! ## Transactions -/

/-- `Transaction` of the wallet. -/
structure Transaction where
  mintUrl : String
  direction : TransactionDirection
  amount : Amount
  fee : Amount
  unit : CurrencyUnit
  ys : List PublicKey
  timestamp : Nat
  memo : Option String
  metadata : ExtTreeMap String String
  quoteId : Option String
  paymentRequest : Option String
  paymentProof : Option String

/-- `TransactionId::new`: the hash of the points in the order of their bytes. -/
def transactionId (env : RowEnv) (ys : List PublicKey) : BitVec 256 :=
  env.sha256 ((ys.mergeSort fun a b => ofBytes a.toBytes ≤ ofBytes b.toBytes).flatMap
    PublicKey.toBytes)

/-- `Transaction::id`. -/
def Transaction.id (env : RowEnv) (transaction : Transaction) : BitVec 256 :=
  transactionId env transaction.ys

/-- The optional arguments of `list_transactions`. -/
structure TransactionFilter where
  mintUrl : Option String
  direction : Option TransactionDirection
  unit : Option CurrencyUnit
deriving DecidableEq, Repr

/-- `Transaction::matches_conditions`. -/
def Transaction.matchesConditions (transaction : Transaction) (filter : TransactionFilter) : Bool :=
  filter.mintUrl.all (transaction.mintUrl == ·) &&
  filter.direction.all (transaction.direction == ·) &&
  filter.unit.all (transaction.unit == ·)

/-- The table `transactions`. -/
structure TransactionRow where
  id : Value
  mintUrl : Value
  direction : Value
  amount : Value
  fee : Value
  unit : Value
  ys : Value
  timestamp : Value
  memo : Value
  metadata : Value
  quoteId : Value
  paymentRequest : Value
  paymentProof : Value
deriving DecidableEq, Repr

/-- The row that `add_transaction` inserts. -/
def Transaction.toRow (env : RowEnv) (transaction : Transaction) : TransactionRow where
  id := .blob (bytesOf 32 (transaction.id env).toNat)
  mintUrl := .text transaction.mintUrl
  direction := .text transaction.direction.toText
  amount := .integer (asI64 transaction.amount.toNat)
  fee := .integer (asI64 transaction.fee.toNat)
  unit := .text (transaction.unit.toText env.casing)
  ys := .blob (transaction.ys.flatMap PublicKey.toBytes)
  timestamp := .integer (asI64 transaction.timestamp)
  memo := .ofOption .text transaction.memo
  metadata := .text (env.metadata.toText transaction.metadata)
  quoteId := .ofOption .text transaction.quoteId
  paymentRequest := .ofOption .text transaction.paymentRequest
  paymentProof := .ofOption .text transaction.paymentProof

/-- What `ON CONFLICT(id) DO UPDATE SET` of `add_transaction` makes of a row: it does not set the
points. -/
def TransactionRow.onConflict (row excluded : TransactionRow) : TransactionRow :=
  { excluded with id := row.id, ys := row.ys }

/-- The columns that `get_transaction` and `list_transactions` select. -/
def TransactionRow.columns (row : TransactionRow) : List Value :=
  [row.mintUrl, row.direction, row.unit, row.amount, row.fee, row.ys, row.timestamp, row.memo,
    row.metadata, row.quoteId, row.paymentRequest, row.paymentProof]

/-- `slice::chunks`. -/
def chunks (size : Nat) (bytes : List UInt8) : List (List UInt8) :=
  (List.range ((bytes.length + size - 1) / size)).map fun i => (bytes.drop (size * i)).take size

/-- `sql_row_to_transaction`. -/
def sqlRowToTransaction (env : RowEnv) : List Value → Outcome Error Transaction
  | mintUrl :: direction :: unit :: amount :: fee :: ys :: timestamp :: memo :: metadata ::
      quoteId :: paymentRequest :: paymentProof :: _ => do
      let amount ← columnAsAmount "amount" amount
      let fee ← columnAsAmount "fee" fee
      let mintUrl ← env.mintUrlColumn mintUrl
      let direction ← env.columnAsWith TransactionDirection.fromStr "direction" direction
      let unit ← env.unitColumn unit
      let bytes ← columnAsBinary "ys" ys
      let ys ← (chunks 33 bytes).mapM fun chunk => .ofOption .nut01 (env.publicKeyFromSlice chunk)
      let timestamp ← columnAsU64 "timestamp" timestamp
      let memo ← env.nullableStringColumn "memo" memo
      let metadata ← columnAsNullableParsed env.metadata.fromStr env.metadata.fromSlice
        "metadata" metadata
      let quoteId ← env.nullableStringColumn "quote_id" quoteId
      let paymentRequest ← env.nullableStringColumn "payment_request" paymentRequest
      let paymentProof ← env.nullableStringColumn "payment_proof" paymentProof
      .ok ⟨mintUrl, direction, amount, fee, unit, ys, timestamp, memo, metadata.getD ∅, quoteId,
        paymentRequest, paymentProof⟩
  | row => .err (.conversion (.missingColumn 12 row.length))

/-- The fields of a transaction that go through a library are read as they were written, and its
numbers fit their columns. -/
structure Transaction.Encodable (env : RowEnv) (transaction : Transaction) : Prop where
  amount : transaction.amount.toNat < 2 ^ 63
  fee : transaction.fee.toNat < 2 ^ 63
  ys : ∀ y ∈ transaction.ys, env.ReadsPublicKey y
  timestamp : transaction.timestamp < 2 ^ 63
  metadata : env.metadata.RoundTrips transaction.metadata

/-- Bytes of pieces of one size are cut into the pieces. -/
theorem chunks_flatMap {T : Type} {size : Nat} (hsize : 0 < size) {toBytes : T → List UInt8}
    (hlen : ∀ v, (toBytes v).length = size) (values : List T) :
    chunks size (values.flatMap toBytes) = values.map toBytes := by
  induction values with
  | nil =>
      have hcount : (0 + size - 1) / size = 0 := Nat.div_eq_of_lt (by omega)
      rw [List.flatMap_nil, List.map_nil, chunks, List.length_nil, hcount, List.range_zero,
        List.map_nil]
  | cons v rest ih =>
      have hcount : ((toBytes v ++ rest.flatMap toBytes).length + size - 1) / size =
          ((rest.flatMap toBytes).length + size - 1) / size + 1 := by
        rw [List.length_append, hlen, ← Nat.add_div_right _ hsize]
        congr 1
        omega
      have hnext : ∀ i, ((toBytes v ++ rest.flatMap toBytes).drop (size * (i + 1))).take size =
          ((rest.flatMap toBytes).drop (size * i)).take size := by
        intro i
        rw [Nat.mul_succ, Nat.add_comm, ← List.drop_drop, List.drop_left' (hlen v)]
      have hfirst : (toBytes v ++ rest.flatMap toBytes).take size = toBytes v :=
        List.take_left' (hlen v)
      rw [List.flatMap_cons, List.map_cons, ← ih, chunks, hcount, List.range_succ_eq_map,
        List.map_cons, List.map_map, Nat.mul_zero, List.drop_zero, hfirst]
      congr 1
      apply List.map_congr_left
      intro i _
      exact hnext i

theorem length_toBytes (key : PublicKey) : key.toBytes.length = 33 := by
  simp [PublicKey.toBytes]

theorem mapM_publicKeyFromSlice {ys : List PublicKey} (h : ∀ y ∈ ys, env.ReadsPublicKey y) :
    (chunks 33 (ys.flatMap PublicKey.toBytes)).mapM
      (fun chunk => Outcome.ofOption Error.nut01 (env.publicKeyFromSlice chunk)) = .ok ys := by
  rw [chunks_flatMap (by decide) length_toBytes]
  induction ys with
  | nil => rfl
  | cons y rest ih =>
      obtain ⟨hy, hrest⟩ := List.forall_mem_cons.mp h
      rw [RowEnv.ReadsPublicKey] at hy
      rw [List.map_cons, List.mapM_cons, hy, Outcome.ofOption_some, Outcome.bind_ok, ih hrest,
        Outcome.bind_ok, Outcome.pure_eq]

theorem sqlRowToTransaction_columns {transaction : Transaction} (h : transaction.Encodable env)
    (hurl : env.NormalUrl transaction.mintUrl) (hunit : transaction.unit.Canonical env.casing) :
    sqlRowToTransaction env (transaction.toRow env).columns = .ok transaction := by
  obtain ⟨mintUrl, direction, amount, fee, unit, ys, timestamp, memo, metadata, quoteId,
    paymentRequest, paymentProof⟩ := transaction
  obtain ⟨hamount, hfee, hys, htimestamp, hmetadata⟩ := h
  dsimp only at hurl hamount hfee hys htimestamp hmetadata hunit
  rw [Json.RoundTrips] at hmetadata
  simp only [TransactionRow.columns, Transaction.toRow, sqlRowToTransaction, Outcome.bind_ok,
    columnAsAmount_asI64 hamount, columnAsAmount_asI64 hfee, RowEnv.mintUrlColumn_text hurl,
    RowEnv.columnAsWith_text (TransactionDirection.fromStr_toText direction),
    RowEnv.unitColumn_text hunit, columnAsBinary, mapM_publicKeyFromSlice hys,
    columnAsU64_asI64 htimestamp, RowEnv.nullableStringColumn_ofOption, columnAsNullableParsed,
    hmetadata, Option.getD_some]

/-! ## Mints -/

structure MintVersion where
  name : String
  version : String
deriving DecidableEq, Repr

structure ContactInfo where
  method : String
  info : String
deriving DecidableEq, Repr

/-- `MintInfo`, with `N` for the settings of its NUTs. -/
structure MintInfo (N : Type) where
  name : Option String
  pubkey : Option PublicKey
  version : Option MintVersion
  description : Option String
  descriptionLong : Option String
  contact : Option (List ContactInfo)
  nuts : N
  iconUrl : Option String
  urls : Option (List String)
  motd : Option String
  time : Option Nat
  tosUrl : Option String
deriving DecidableEq, Repr

/-- What the rows of mints go through outside the repository. -/
structure MintJson (N : Type) where
  publicKey : Json PublicKey
  version : Json MintVersion
  contact : Json (List ContactInfo)
  nuts : Json N
  urls : Json (List String)
  /-- `Nuts::default`. -/
  defaultNuts : N

/-- The table `mint`. -/
structure MintRow where
  mintUrl : Value
  name : Value
  pubkey : Value
  version : Value
  description : Value
  descriptionLong : Value
  contact : Value
  nuts : Value
  iconUrl : Value
  urls : Value
  motd : Value
  mintTime : Value
  tosUrl : Value
deriving DecidableEq, Repr

variable {N : Type}

/-- The row that `add_mint` inserts. -/
def mintRow (json : MintJson N) (mintUrl : String) : Option (MintInfo N) → MintRow
  | some info => {
      mintUrl := .text mintUrl
      name := .ofOption .text info.name
      pubkey := .ofOption (fun key => .blob key.toBytes) info.pubkey
      version := .ofOption (fun v => .text (json.version.toText v)) info.version
      description := .ofOption .text info.description
      descriptionLong := .ofOption .text info.descriptionLong
      contact := .ofOption (fun c => .text (json.contact.toText c)) info.contact
      nuts := .text (json.nuts.toText info.nuts)
      iconUrl := .ofOption .text info.iconUrl
      urls := .ofOption (fun u => .text (json.urls.toText u)) info.urls
      motd := .ofOption .text info.motd
      mintTime := .ofOption (fun t => .integer (asI64 t)) info.time
      tosUrl := .ofOption .text info.tosUrl }
  | none =>
      ⟨.text mintUrl, .null, .null, .null, .null, .null, .null, .null, .null, .null, .null, .null,
        .null⟩

/-- The columns that `get_mint` selects. -/
def MintRow.columns (row : MintRow) : List Value :=
  [row.name, row.pubkey, row.version, row.description, row.descriptionLong, row.contact, row.nuts,
    row.iconUrl, row.motd, row.urls, row.mintTime, row.tosUrl]

/-- The columns that `get_mints` selects. -/
def MintRow.listColumns (row : MintRow) : List Value := row.columns ++ [row.mintUrl]

/-- `sql_row_to_mint_info`. -/
def sqlRowToMintInfo (env : RowEnv) (json : MintJson N) :
    List Value → Outcome Error (MintInfo N)
  | name :: pubkey :: version :: description :: descriptionLong :: contact :: nuts :: iconUrl ::
      motd :: urls :: mintTime :: tosUrl :: _ => do
      let name ← env.nullableStringColumn "&name" name
      let pubkey ← columnAsNullableParsed json.publicKey.fromStr json.publicKey.fromSlice
        "&pubkey" pubkey
      let version ← env.nullableStringColumn "&version" version
      let description ← env.nullableStringColumn "description" description
      let descriptionLong ← env.nullableStringColumn "description_long" descriptionLong
      let contact ← env.columnAsNullableWith json.contact.fromStr "contact" contact
      let nuts ← env.columnAsNullableWith json.nuts.fromStr "nuts" nuts
      let urls ← env.columnAsNullableWith json.urls.fromStr "urls" urls
      let iconUrl ← env.nullableStringColumn "icon_url" iconUrl
      let motd ← env.nullableStringColumn "motd" motd
      let time ← columnAsNullableNumber parseU64 u64TryFrom "mint_time" mintTime
      let tosUrl ← env.nullableStringColumn "tos_url" tosUrl
      .ok ⟨name, pubkey, version.bind json.version.fromStr, description, descriptionLong, contact,
        nuts.getD json.defaultNuts, iconUrl, urls, motd, time, tosUrl⟩
  | row => .err (.conversion (.missingColumn 12 row.length))

/-- The URL and the information of a row of `get_mints`. Information that cannot be read is
dropped. -/
def sqlRowToMint (env : RowEnv) (json : MintJson N) (row : List Value) :
    Outcome Error (String × Option (MintInfo N)) := do
  let url ← .ofOption (.conversion (.missingColumn 0 1)) row.getLast?
  let url ← env.columnAsWith (MintUrl.formatUrl env.casing)
    "row.pop().ok_or(ConversionError::MissingColumn(0, 1))?" url
  let info ← (sqlRowToMintInfo env json row.dropLast).toOption
  .ok (url, info)

/-- The fields of a mint's information that go through a library are read as they were written,
and its time fits its column. -/
structure MintInfo.Encodable (json : MintJson N) (info : MintInfo N) : Prop where
  version : ∀ v ∈ info.version, json.version.RoundTrips v
  contact : ∀ c ∈ info.contact, json.contact.RoundTrips c
  nuts : json.nuts.RoundTrips info.nuts
  urls : ∀ u ∈ info.urls, json.urls.RoundTrips u
  time : ∀ t ∈ info.time, t < 2 ^ 63

variable {json : MintJson N}

theorem columnAsNullableWith_ofOption {fromStr : String → Option T} {toText : T → String}
    {value : Option T} (h : ∀ v ∈ value, fromStr (toText v) = some v) (column : String) :
    env.columnAsNullableWith fromStr column (.ofOption (fun v => .text (toText v)) value) =
      .ok value :=
  columnAsNullableParsed_ofOption h column

theorem columnAsNullableNumber_asI64 {time : Option Nat} (h : ∀ t ∈ time, t < 2 ^ 63)
    (column : String) :
    columnAsNullableNumber parseU64 u64TryFrom column
      (.ofOption (fun t => .integer (asI64 t)) time) = .ok time := by
  cases time with
  | none => rfl
  | some t => exact congrArg (some <$> ·) (columnAsU64_asI64 (h t rfl) column)

theorem sqlRowToMintInfo_columns {info : MintInfo N} (h : info.Encodable json)
    (hpubkey : info.pubkey = none) (mintUrl : String) :
    sqlRowToMintInfo env json (mintRow json mintUrl (some info)).columns = .ok info := by
  obtain ⟨name, pubkey, version, description, descriptionLong, contact, nuts, iconUrl, urls, motd,
    time, tosUrl⟩ := info
  obtain ⟨hversion, hcontact, hnuts, hurls, htime⟩ := h
  dsimp only at hversion hcontact hnuts hurls htime hpubkey
  subst hpubkey
  have htext : env.nullableStringColumn "&version"
      (.ofOption (fun v => .text (json.version.toText v)) version) =
        .ok (version.map json.version.toText) := by
    cases version <;> rfl
  have hparsed : (version.map json.version.toText).bind json.version.fromStr = version := by
    cases version with
    | none => rfl
    | some v => exact hversion v rfl
  have hnutsText : env.columnAsNullableWith json.nuts.fromStr "nuts"
      (.text (json.nuts.toText nuts)) = .ok (some nuts) :=
    congrArg Outcome.ok hnuts
  have hnull : columnAsNullableParsed json.publicKey.fromStr json.publicKey.fromSlice "&pubkey"
      (.ofOption (fun key : PublicKey => .blob key.toBytes) none) = .ok none := rfl
  simp only [MintRow.columns, mintRow, sqlRowToMintInfo, Outcome.bind_ok,
    RowEnv.nullableStringColumn_ofOption, hnull, htext, hparsed,
    columnAsNullableWith_ofOption hcontact, hnutsText, columnAsNullableWith_ofOption hurls,
    columnAsNullableNumber_asI64 htime, Option.getD_some]

theorem sqlRowToMint_listColumns {mintUrl : String} {info : MintInfo N}
    (hurl : env.NormalUrl mintUrl) (h : info.Encodable json) (hpubkey : info.pubkey = none) :
    sqlRowToMint env json (mintRow json mintUrl (some info)).listColumns =
      .ok (mintUrl, some info) := by
  have hlast : (mintRow json mintUrl (some info)).listColumns.getLast? = some (.text mintUrl) :=
    rfl
  have hinit : (mintRow json mintUrl (some info)).listColumns.dropLast =
      (mintRow json mintUrl (some info)).columns := rfl
  rw [sqlRowToMint, hlast, hinit, Outcome.ofOption_some, Outcome.bind_ok,
    RowEnv.columnAsWith_text hurl, Outcome.bind_ok, sqlRowToMintInfo_columns h hpubkey]
  rfl

end SqlWallet

end Cdk
