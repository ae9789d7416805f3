import Cdk.Nuts.Types

/-!
# Spending conditions

The tags of a NUT-10 secret are parsed into typed tags and collected by kind,
so that the last tag of a kind counts. Parsing a malformed tag is an error,
but the collection unwraps that error and indexing a missing value panics:
a list of tags either gives conditions or panics.
-/

namespace Cdk

open Lib

/-- Errors of NUT-11. -/
inductive Nut11Error where
  | incorrectSecretKind
  | invalidSignature
  | unknownSigFlag
  | spendConditionsNotMet
  | p2pkPubkeyRequired
  | kindNotFound
  | invalidHash
  | signaturesNotProvided
  | duplicateSignature
  | parseInt
  | serdeJsonError
  | secp256k1
  | nut01
  | secret
deriving DecidableEq, Repr

inductive SigFlag where
  | sigInputs
  | sigAll
deriving DecidableEq, Repr

def SigFlag.fromStr : String → Outcome Nut11Error SigFlag
  | "SIG_ALL" => .ok .sigAll
  | "SIG_INPUTS" => .ok .sigInputs
  | _ => .err .unknownSigFlag

inductive TagKind where
  | sigFlag
  | nSigs
  | locktime
  | refund
  | pubkeys
  | nSigsRefund
  | custom (name : String)
deriving DecidableEq, Repr

def TagKind.ofText : String → TagKind
  | "sigflag" => .sigFlag
  | "n_sigs" => .nSigs
  | "locktime" => .locktime
  | "refund" => .refund
  | "pubkeys" => .pubkeys
  | "n_sigs_refund" => .nSigsRefund
  | t => .custom t

inductive Tag where
  | sigFlag (flag : SigFlag)
  | nSigs (n : Nat)
  | lockTime (time : Nat)
  | refund (keys : List PublicKey)
  | pubKeys (keys : List PublicKey)
  | nSigsRefund (n : Nat)
  | custom (name : String) (values : List String)
deriving DecidableEq, Repr

namespace Tag

def kind : Tag → TagKind
  | sigFlag _ => .sigFlag
  | nSigs _ => .nSigs
  | lockTime _ => .locktime
  | refund _ => .refund
  | pubKeys _ => .pubkeys
  | nSigsRefund _ => .nSigsRefund
  | custom name _ => .custom name

/-- The text of a tag at index one; a missing one panics. -/
def value (tag : List String) : Outcome Nut11Error String := .expect tag[1]?

def parseNumber (tag : List String) : Outcome Nut11Error Nat := do
  let text ← value tag
  .ofOption .parseInt (parseU64 text)

def parseKeys (env : Env) (tag : List String) : Outcome Nut11Error (List PublicKey) :=
  (tag.drop 1).mapM fun text => .ofOption .nut01 (env.parsePublicKey text)

/-- `Tag::try_from`. -/
def tryFrom (env : Env) (tag : List String) : Outcome Nut11Error Tag := do
  let first ← Outcome.ofOption .kindNotFound tag.head?
  match TagKind.ofText first with
  | .sigFlag =>
      let text ← value tag
      let flag ← SigFlag.fromStr text
      .ok (.sigFlag flag)
  | .nSigs =>
      let n ← parseNumber tag
      .ok (.nSigs n)
  | .locktime =>
      let time ← parseNumber tag
      .ok (.lockTime time)
  | .refund =>
      let keys ← parseKeys env tag
      .ok (.refund keys)
  | .pubkeys =>
      let keys ← parseKeys env tag
      .ok (.pubKeys keys)
  | .nSigsRefund =>
      let n ← parseNumber tag
      .ok (.nSigsRefund n)
  | .custom name => .ok (.custom name (tag.drop 1))

end Tag

/-- P2PK and HTLC spending conditions. -/
structure Conditions where
  locktime : Option Nat
  pubkeys : Option (List PublicKey)
  refundKeys : Option (List PublicKey)
  numSigs : Option Nat
  sigFlag : SigFlag
  numSigsRefund : Option Nat
deriving DecidableEq, Repr

namespace Conditions

/-- The tag that a map built from the tags in order holds for a kind. -/
def lookup (tags : List Tag) (kind : TagKind) : Option Tag :=
  tags.reverse.find? fun tag => tag.kind = kind

def ofTags (tags : List Tag) : Conditions where
  locktime := match lookup tags .locktime with
    | some (.lockTime time) => some time
    | _ => none
  pubkeys := match lookup tags .pubkeys with
    | some (.pubKeys keys) => some keys
    | _ => none
  refundKeys := match lookup tags .refund with
    | some (.refund keys) => some keys
    | _ => none
  numSigs := match lookup tags .nSigs with
    | some (.nSigs n) => some n
    | _ => none
  sigFlag := match lookup tags .sigFlag with
    | some (.sigFlag flag) => flag
    | _ => .sigInputs
  numSigsRefund := match lookup tags .nSigsRefund with
    | some (.nSigsRefund n) => some n
    | _ => none

/-- `Result::unwrap` on a parsed tag. -/
def unwrapTag : Outcome Nut11Error Tag → Outcome Nut11Error Tag
  | .err _ => .panic
  | x => x

/-- `Conditions::try_from`. -/
def tryFrom (env : Env) (tags : List (List String)) : Outcome Nut11Error Conditions := do
  let tags ← tags.mapM fun tag => unwrapTag (Tag.tryFrom env tag)
  .ok (ofTags tags)

/-- The conditions of a secret, absent without tags. -/
def ofSecret (env : Env) (secret : Nut10Secret) : Outcome Nut11Error (Option Conditions) :=
  match secret.secretData.tags with
  | some tags => (tryFrom env tags).toOption
  | none => .ok none

theorem unwrapTag_ne_err (x : Outcome Nut11Error Tag) (e : Nut11Error) : unwrapTag x ≠ .err e := by
  cases x <;> simp [unwrapTag]

private theorem mapM_unwrapTag_ne_err (f : List String → Outcome Nut11Error Tag)
    (tags : List (List String)) (e : Nut11Error) :
    tags.mapM (fun tag => unwrapTag (f tag)) ≠ .err e := by
  induction tags with
  | nil => simp
  | cons tag rest ih =>
      rw [List.mapM_cons]
      cases h : unwrapTag (f tag) with
      | ok t =>
          cases hr : rest.mapM (fun tag => unwrapTag (f tag)) with
          | ok ts => simp
          | err e' =>
              simp only [Outcome.bind_ok, Outcome.bind_err]
              exact hr ▸ ih
          | panic => simp
      | err e' => exact absurd h (unwrapTag_ne_err _ e')
      | panic => simp

/-- Tags give conditions or panic, never an error. -/
theorem tryFrom_ne_err (env : Env) (tags : List (List String)) (e : Nut11Error) :
    tryFrom env tags ≠ .err e := by
  unfold tryFrom
  cases h : tags.mapM fun tag => unwrapTag (Tag.tryFrom env tag) with
  | ok ts => simp
  | err e' => exact absurd h (mapM_unwrapTag_ne_err _ tags e')
  | panic => simp

end Conditions

/-- The conditions that the checks of the mint use; absent ones are the default. -/
def effective (conditions : Option Conditions) : Conditions :=
  conditions.getD (Conditions.ofTags [])

section Effective

variable (conditions : Option Conditions)

theorem effective_numSigs :
    (effective conditions).numSigs = conditions.bind Conditions.numSigs := by
  cases conditions <;> rfl

theorem effective_pubkeys :
    (effective conditions).pubkeys = conditions.bind Conditions.pubkeys := by
  cases conditions <;> rfl

theorem effective_locktime :
    (effective conditions).locktime = conditions.bind Conditions.locktime := by
  cases conditions <;> rfl

theorem effective_refundKeys :
    (effective conditions).refundKeys = conditions.bind Conditions.refundKeys := by
  cases conditions <;> rfl

end Effective

/-- The tags of a secret give the conditions that the checks use. -/
theorem tryFrom_of_ofSecret {env : Env} {secret : Nut10Secret} {conditions : Option Conditions}
    (h : Conditions.ofSecret env secret = .ok conditions) :
    Conditions.tryFrom env (secret.secretData.tags.getD []) = .ok (effective conditions) := by
  unfold Conditions.ofSecret at h
  cases htags : secret.secretData.tags with
  | none =>
      simp only [htags, Outcome.ok.injEq] at h
      rw [← h]
      rfl
  | some tags =>
      simp only [htags] at h
      rw [Option.getD_some]
      cases hc : Conditions.tryFrom env tags with
      | ok c =>
          rw [hc] at h
          cases h
          rfl
      | err e => exact absurd hc (Conditions.tryFrom_ne_err env tags e)
      | panic =>
          rw [hc] at h
          cases h

end Cdk
