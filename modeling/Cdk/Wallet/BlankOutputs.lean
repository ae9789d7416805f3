import Cdk.Mint.ChangeConservation
import Cdk.Wallet.MeltAnswers
import Mathlib.Analysis.SpecialFunctions.Log.Base

/-!
# Enough blank outputs

A wallet sends as many blank outputs as the logarithm of what its inputs are
worth beyond the quote, rounded up, and at least one. Over powers of two an
amount below a power has no more parts than its exponent, and the power itself
has one part.
-/

namespace Cdk

open Lib

/-! ## Parts over powers of two -/

/-- The denominations are the powers of two below a bound. -/
def ArePowers (n : Nat) (denominations : List Amount) : Prop :=
  denominations.map Amount.toNat = (List.range n).map (2 ^ ·)

section Parts

variable {n k : Nat} {ds : List Amount}

theorem ArePowers.pos (h : ArePowers n ds) : ∀ d ∈ ds, 0 < d.toNat := by
  intro d hd
  have hmem := List.mem_map_of_mem (f := Amount.toNat) hd
  rw [h] at hmem
  obtain ⟨i, -, hi⟩ := List.mem_map.mp hmem
  exact hi ▸ Nat.two_pow_pos i

/-- The largest of the powers comes first in a split. -/
theorem ArePowers.eq_append (h : ArePowers (n + 1) ds) :
    ∃ init d, ds = init ++ [d] ∧ ArePowers n init ∧ d.toNat = 2 ^ n := by
  rw [ArePowers, List.range_succ, List.map_append, List.map_singleton] at h
  obtain ⟨init, last, rfl, hinit, hlast⟩ := List.map_eq_append_iff.mp h
  obtain ⟨d, rfl, hd⟩ := List.map_eq_singleton_iff.mp hlast
  exact ⟨init, d, rfl, hinit, hd⟩

theorem splitParts_append (init : List Amount) (d : Amount) (left : Nat) :
    splitParts (init ++ [d]).reverse left =
      if d.toNat ≤ left then d :: splitParts init.reverse (left % d.toNat)
      else splitParts init.reverse (left % d.toNat) := by
  rw [List.reverse_append, List.reverse_singleton, List.singleton_append, splitParts]

/-- What is below a power has no more parts than the exponent of the power. -/
theorem length_splitParts_of_lt (hds : ArePowers n ds) {left : Nat} (h : left < 2 ^ k) :
    (splitParts ds.reverse left).length ≤ k := by
  induction n generalizing ds left k with
  | zero =>
      obtain rfl := List.map_eq_nil_iff.mp hds
      exact Nat.zero_le k
  | succ n ih =>
      obtain ⟨init, d, rfl, hinit, hd⟩ := hds.eq_append
      rw [splitParts_append, hd]
      by_cases hpart : 2 ^ n ≤ left
      · have hlt : n < k := (Nat.pow_lt_pow_iff_right Nat.one_lt_two).mp (hpart.trans_lt h)
        have hrest := ih hinit (Nat.mod_lt left (Nat.two_pow_pos n))
        rw [if_pos hpart, List.length_cons]
        omega
      · rw [if_neg hpart, Nat.mod_eq_of_lt (Nat.lt_of_not_le hpart)]
        exact ih hinit h

/-- A power of two has at most one part. -/
theorem length_splitParts_two_pow (hds : ArePowers n ds) (k : Nat) :
    (splitParts ds.reverse (2 ^ k)).length ≤ 1 := by
  induction n generalizing ds with
  | zero =>
      obtain rfl := List.map_eq_nil_iff.mp hds
      exact Nat.zero_le 1
  | succ n ih =>
      obtain ⟨init, d, rfl, hinit, hd⟩ := hds.eq_append
      rw [splitParts_append, hd]
      by_cases hpart : 2 ^ n ≤ 2 ^ k
      · have hle : n ≤ k := (Nat.pow_le_pow_iff_right Nat.one_lt_two).mp hpart
        rw [if_pos hpart, Nat.mod_eq_zero_of_dvd (Nat.pow_dvd_pow 2 hle),
          splitParts_zero fun d hd => hinit.pos d (List.mem_reverse.mp hd)]
        exact le_rfl
      · rw [if_neg hpart, Nat.mod_eq_of_lt (Nat.lt_of_not_le hpart)]
        exact ih hinit

/-- A change up to an amount has no more parts than the logarithm of the amount, and one. -/
theorem length_splitParts_le (hds : ArePowers n ds) {left amount : Nat} (hle : left ≤ amount) :
    (splitParts ds.reverse left).length ≤ max 1 (Nat.clog 2 amount) := by
  have hpow : left ≤ 2 ^ Nat.clog 2 amount := hle.trans (Nat.le_pow_clog Nat.one_lt_two amount)
  rcases hpow.lt_or_eq with hlt | heq
  · exact (length_splitParts_of_lt hds hlt).trans (Nat.le_max_right _ _)
  · rw [heq]
    exact (length_splitParts_two_pow hds _).trans (Nat.le_max_left _ _)

end Parts

namespace Wallet

open Selection (worth)

/-- The logarithm of an amount is the real one, rounded up. -/
def ExactLog2 (machine : Counters.Machine) : Prop :=
  ∀ amount : Amount, amount ≠ .zero →
    machine.log2Ceil amount = ⌈Real.logb (2 : ℕ) (amount.toNat : ℝ)⌉₊

/-- What the mint has of a request when the payment is made: the inputs and the outputs that the
wallet has sent, the outputs in any order, and a keyset with the powers of two. -/
structure SeenByMint (keysets : Keysets) (sent : MeltSent) (info : Db.MeltRequestInfo) : Prop where
  inputs : info.inputsAmount.toNat = worth sent.request.inputs
  outputs : info.changeOutputs.Perm (sent.request.outputs.getD [])
  powers : ArePowers 64 (changeDenominations keysets info.changeOutputs)

section Blank

variable {w : Wallet} {id : Id} {change : Amount} {preMints : List PreMint} {call : MeltCall}
  {sent : MeltSent} {s s' : Store}

theorem ceil_logb_two (n : Nat) : ⌈Real.logb 2 (n : ℝ)⌉₊ = Nat.clog 2 n := by
  exact_mod_cast Real.natCeil_logb_natCast 2 n

theorem log2Ceil_eq (h : ExactLog2 w.machine) (hchange : change ≠ .zero) :
    w.machine.log2Ceil change = Nat.clog 2 change.toNat := by
  rw [h change hchange, Real.natCeil_logb_natCast]

/-- There is a blank output at least, and one for every power below the change. -/
theorem length_blankPreMints (hlog : ExactLog2 w.machine) (hchange : change ≠ .zero)
    (h : w.blankPreMints id change s = (.ok preMints, s')) :
    preMints.length = max (Nat.clog 2 change.toNat) 1 := by
  have hpos : ¬ change ≤ .zero := fun hle => hchange (Amount.ext_toNat (Nat.le_zero.mp hle))
  rw [blankPreMints, if_neg hpos, Proc.bind_ok] at h
  obtain ⟨newCounter, s₁, -, h⟩ := h
  have hblank := congrArg Prod.fst h
  dsimp only [Proc.lift_run] at hblank
  rw [preMintsFromSeedBlank, if_neg hpos] at hblank
  have hamounts := congrArg List.length (deriveAll_spec hblank).1
  rwa [List.length_map, List.length_replicate, log2Ceil_eq hlog hchange] at hamounts

/-- A request has the blank outputs for what its inputs are worth beyond the quote. -/
theorem sendMelt_outputs (h : w.sendMelt call s = (.ok sent, s')) :
    sent.request.inputs = call.proofs ∧
      sent.request.outputs = some (sent.preMints.map PreMint.blindedMessage) ∧
      ∃ change : Amount, change.toNat + sent.quote.amount.toNat = worth call.proofs ∧
        ∃ s₁ s₂, w.blankPreMints sent.keysetId change s₁ = (.ok sent.preMints, s₂) := by
  simp only [sendMelt, Proc.lift_bind_ok] at h
  obtain ⟨quote, -, ⟨_, proofsTotal, ys⟩, hbefore, h⟩ := h
  obtain ⟨-, -, htotal, -, -⟩ := beforePending_eq_ok.mp hbefore
  rw [Proc.bind_of_ok (Proc.write_run _ _)] at h
  simp only [sendBehindPending, Proc.lift_bind_ok] at h
  obtain ⟨activeKeysetId, -, changeAmount, hchange, h⟩ := h
  rw [Amount.sub, Outcome.expect_eq_ok, Amount.checkedSub_eq_some, htotal] at hchange
  rw [Proc.bind_ok] at h
  obtain ⟨preMints, s₁, hblank, h⟩ := h
  cases hmethod : quote.paymentMethod with
  | custom name =>
      rw [hmethod] at h
      cases h
  | bolt11 =>
      rw [hmethod] at h
      cases h
      exact ⟨rfl, rfl, changeAmount, hchange, _, _, hblank⟩
  | bolt12 =>
      rw [hmethod] at h
      cases h
      exact ⟨rfl, rfl, changeAmount, hchange, _, _, hblank⟩

end Blank

section Suffices

variable {w : Wallet} {call : MeltCall} {sent : MeltSent} {keysets : Keysets}
  {info : Db.MeltRequestInfo} {spent : Amount} {s s' : Store}

/-- For what is left behind a payment of the quote there are blank outputs, and enough of them. -/
theorem changeParts_length_le (hlog : ExactLog2 w.machine) (h : w.sendMelt call s = (.ok sent, s'))
    (hseen : SeenByMint keysets sent info) (hspent : sent.quote.amount ≤ spent) :
    (changeParts keysets info spent).length ≤ info.changeOutputs.length ∧
      (spent < info.inputsAmount → info.changeOutputs ≠ []) := by
  obtain ⟨hinputs, houtputs, change, hchange, s₁, s₂, hblank⟩ := sendMelt_outputs h
  have hspent : sent.quote.amount.toNat ≤ spent.toNat := hspent
  have hworth : info.inputsAmount.toNat = change.toNat + sent.quote.amount.toNat := by
    rw [hseen.inputs, hinputs, hchange]
  have hlength : info.changeOutputs.length = sent.preMints.length := by
    rw [hseen.outputs.length_eq, houtputs, Option.getD_some, List.length_map]
  have hle : changeTarget info spent ≤ change.toNat := by
    rw [changeTarget]
    omega
  by_cases hzero : change = .zero
  · have hnothing : change.toNat = 0 := congrArg Amount.toNat hzero
    have hparts : changeParts keysets info spent = [] := by
      have hnone : changeTarget info spent = 0 := Nat.le_zero.mp (hle.trans hnothing.le)
      rw [changeParts, hnone]
      exact splitParts_zero fun d hd => hseen.powers.pos d (List.mem_reverse.mp hd)
    refine ⟨by rw [hparts]; exact Nat.zero_le _, fun hlt => ?_⟩
    have hlt : spent.toNat < info.inputsAmount.toNat := hlt
    omega
  · have hblank := length_blankPreMints hlog hzero hblank
    refine ⟨?_, fun _ hnone => ?_⟩
    · rw [hlength, hblank, Nat.max_comm]
      exact length_splitParts_le hseen.powers hle
    · rw [hnone, List.length_nil, hblank] at hlength
      omega

/-- No part of the change is dropped: with the denominations of the keyset a change up to an amount
has no more parts than the logarithm of that amount, and the outputs that a wallet has sent are
enough for the change of every payment that has cost the quote or more. -/
theorem blankOutputs_suffice (hlog : ExactLog2 w.machine) :
    (∀ (amount change : Amount) (denominations : List Amount), ArePowers 64 denominations →
      amount ≠ .zero → change ≤ amount →
        ∃ parts, (change.split denominations : Outcome Cdk.Error (List Amount)) = .ok parts ∧
          parts.length ≤ max 1 ⌈Real.logb 2 (amount.toNat : ℝ)⌉₊) ∧
    ∀ call s sent s', w.sendMelt call s = (.ok sent, s') →
      ∀ keysets info spent, SeenByMint keysets sent info → sent.quote.amount ≤ spent →
        (changeParts keysets info spent).length ≤ (sent.request.outputs.getD []).length ∧
        ∀ env quoteId db writer, AcceptedMelt env quoteId info db →
          ∀ writer' change db', processMeltRequest env keysets writer quoteId spent db =
              .ok ((writer', change), db') →
            Amount.total (((change.map PendingChange.messages).getD []).map
              BlindedMessage.amount) = changeTarget info spent := by
  constructor
  · intro amount change denominations hpowers _ hle
    refine ⟨_, Amount.split_eq change hpowers.pos, ?_⟩
    rw [ceil_logb_two]
    exact length_splitParts_le hpowers hle
  · intro call s sent s' h keysets info spent hseen hspent
    obtain ⟨hlength, hnonempty⟩ := changeParts_length_le hlog h hseen hspent
    refine ⟨hseen.outputs.length_eq ▸ hlength, ?_⟩
    intro env quoteId db writer haccepted writer' change db' hbooked
    obtain ⟨booked, paid, settled, heq⟩ :=
      @processMeltRequest_eq env keysets quoteId info db writer spent haccepted
    rw [hbooked] at heq
    by_cases hlt : spent < info.inputsAmount
    · have hchange : spent < info.inputsAmount ∧ info.changeOutputs ≠ [] :=
        ⟨hlt, hnonempty hlt⟩
      have hfits : spent.toNat + info.inputsFee.toNat ≤ info.inputsAmount.toNat ∧
          ∀ d ∈ changeDenominations keysets info.changeOutputs, 0 < d.toNat := by
        by_contra hnot
        rw [if_pos hchange, changeMessages_panic hlt hnot] at heq
        cases heq
      obtain ⟨messages, hmessages, hamounts⟩ := changeMessages_ok hfits.1 hfits.2
      rw [if_pos hchange, hmessages] at heq
      cases heq
      have htarget : changeTarget info spent < 2 ^ 64 := by
        have := info.inputsAmount.isLt
        rw [changeTarget]
        omega
      have hexact := (splitsExactly_powers hseen.powers _).mpr htarget
      rw [Option.map_some, Option.getD_some, hamounts, (total_taken _ _).2 hlength, changeParts]
      exact (total_splitParts (fun d hd => hfits.2 d (List.mem_reverse.mp hd)) _).2.mpr hexact
    · rw [if_neg fun hchange => hlt hchange.1] at heq
      cases heq
      have hle : ¬ spent.toNat < info.inputsAmount.toNat := hlt
      rw [Option.map_none, Option.getD_none, List.map_nil, Amount.total_nil, changeTarget]
      omega

end Suffices

/-! ### Two left of eight -/

/-- A wallet that sends outputs for exact logarithms. -/
def exactWallet : Wallet :=
  { meltWallet with machine := ⟨10, fun amount => Nat.clog 2 amount.toNat⟩ }

theorem exactLog2_exactWallet : ExactLog2 exactWallet.machine := fun amount _ =>
  (Real.natCeil_logb_natCast 2 amount.toNat).symm

theorem sendMelt_exactWallet : exactWallet.sendMelt sixCall eightStored =
    (.ok sixSent, (exactWallet.sendMelt sixCall eightStored).2) :=
  Prod.ext (by decide +kernel) rfl

/-- The powers of two of 64 bits. -/
def powersOfTwo : List Amount := (List.range 64).filterMap fun i => Amount.ofNat? (2 ^ i)

def powersKeyset : KeySet := { sampleKeyset with amounts := powersOfTwo }

def sixQuote : MeltQuote :=
  ⟨.uuid 0, .sat, 6, ⟨false, "lnbc2", some (.sat, 6)⟩, 1, .unpaid, some (.label "l2"), none,
    .bolt11⟩

def sixQuoted : World :=
  World.reached sampleEnv (fun _ _ => true) [powersKeyset] [.createMeltQuote sixQuote]

/-- The request of the wallet as the mint has it. -/
def sixPayment : MeltRequest := ⟨.uuid 0, [sampleProof 8 "a"], some [sampleMessage 0 1]⟩

def sixStarted : (ProofWriter × MeltStart) × Db :=
  (startMelt sampleEnv [powersKeyset] (fun _ _ => true) 0 1 sixPayment sixQuoted.db).getD
    (([], .settled none), Db.empty)

def sixInfo : Db.MeltRequestInfo := ⟨8, 0, [sampleMessage 0 1]⟩

theorem sixStarted_accepted : AcceptedMelt sampleEnv (.uuid 0) sixInfo sixStarted.2 where
  keyed := by decide +kernel
  unspent := by decide +kernel
  pending := by decide +kernel
  request := by decide +kernel
  inputs := by decide +kernel
  info := by decide +kernel

theorem arePowers_powersOfTwo : ArePowers 64 powersOfTwo := by
  rw [ArePowers]
  decide +kernel

theorem seenByMint_six : SeenByMint [powersKeyset] sixSent sixInfo where
  inputs := by decide
  outputs := List.Perm.refl _
  powers := arePowers_powersOfTwo

theorem blankOutputs_suffice_six :
    (∃ parts, (Amount.split 7 powersOfTwo : Outcome Cdk.Error (List Amount)) = .ok parts ∧
      parts.length ≤ max 1 ⌈Real.logb 2 ((8 : Amount).toNat : ℝ)⌉₊) ∧
    (changeParts [powersKeyset] sixInfo 6).length ≤ (sixSent.request.outputs.getD []).length ∧
    ∀ writer' change db', processMeltRequest sampleEnv [powersKeyset] sixStarted.1.1 (.uuid 0) 6
        sixStarted.2 = .ok ((writer', change), db') →
      Amount.total (((change.map PendingChange.messages).getD []).map BlindedMessage.amount) =
        changeTarget sixInfo 6 := by
  obtain ⟨hparts, hsuffice⟩ := blankOutputs_suffice exactLog2_exactWallet
  obtain ⟨hlength, hbooked⟩ := hsuffice sixCall eightStored sixSent _ sendMelt_exactWallet
    [powersKeyset] sixInfo 6 seenByMint_six (by decide)
  exact ⟨hparts 8 7 powersOfTwo arePowers_powersOfTwo (by decide) (by decide), hlength,
    hbooked sampleEnv (.uuid 0) sixStarted.2 sixStarted.1.1 sixStarted_accepted⟩

end Wallet

end Cdk
