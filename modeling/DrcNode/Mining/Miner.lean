import DrcNode.Chain.Process
import DrcNode.Script.ScriptNum

/-!
# The miner

In each round a node may produce one candidate. It signs the seed of the round, computes the
threshold from its own window and, when the weight of the signature is below it, builds a block
template on top of the best candidate. The template is checked as a candidate of another node would
be and against the unspent outputs. The candidate then goes into the pools of the node; it is sent
three seconds later, and voted for. Which transactions are included is left open here:
`TemplateInput` stands for any choice.

Source: `standardCoinbaseScript`, `createCoinbaseTx`, `medianAdjustedTime` and `NewBlockTemplate` in
`mining/mining.go`; `CheckConnectBlockTemplate` in `blockchain/validate.go`; `addData` and
`AddInt64` in `txscript/scriptbuilder.go`; `generateBlocks` in `mining/cpuminer/cpuminer.go` and
`BlockVote` in `mining/cpuminer/vote.go`.
-/

namespace DrcNode

/-! ### The coinbase -/

/-- `addData`: the shortest opcode that pushes the data. -/
def addData (data : List UInt8) : List UInt8 :=
  match data with
  | [] => [0]
  | [0x81] => [0x4f]
  | [value] => if value ≤ 16 then [if value = 0 then 0 else 0x50 + value] else [1, value]
  | data =>
      if data.length < Opcode.pushData1.toNat then UInt8.ofNat data.length :: data
      else if data.length ≤ 0xff then Opcode.pushData1 :: leBytes 1 data.length ++ data
      else if data.length ≤ 0xffff then Opcode.pushData2 :: leBytes 2 data.length ++ data
      else Opcode.pushData4 :: leBytes 4 data.length ++ data

def addInt64 (val : Int) : List UInt8 :=
  if val = 0 then [0]
  else if val = -1 ∨ (1 ≤ val ∧ val ≤ 16) then [UInt8.ofNat (0x50 + val).toNat]
  else addData (scriptNumBytes val)

/-- `CoinbaseFlags`, the text "/P2SH/btcd/". -/
def coinbaseFlags : List UInt8 :=
  [0x2f, 0x50, 0x32, 0x53, 0x48, 0x2f, 0x62, 0x74, 0x63, 0x64, 0x2f]

/-- `standardCoinbaseScript`, with the extra nonce zero. -/
def standardCoinbaseScript (nextBlockHeight : Int32) : List UInt8 :=
  addInt64 nextBlockHeight.toInt ++ addInt64 0 ++ addData coinbaseFlags

/-- `createCoinbaseTx`, with the fees that `NewBlockTemplate` adds to its output. -/
def createCoinbaseTx (env : Env) (nextBlockHeight : Int32) (pkScript : List UInt8)
    (totalFees : Int64) : MsgTx where
  version := 1
  txIn := [{ previousOutPoint := ⟨0, 0xffffffff⟩
             signatureScript := standardCoinbaseScript nextBlockHeight
             witness := [], sequence := 0xffffffff }]
  txOut := [{ value := calcBlockSubsidy env nextBlockHeight.toInt + totalFees, pkScript }]
  lockTime := 0

/-! ### Templates -/

/-- What a template takes from the surroundings of the node. -/
structure TemplateInput where
  pkScript : List UInt8
  selected : List MsgTx
  totalFees : Int64
  adjustedTime : Int
  deriving DecidableEq, Repr

/-- `medianAdjustedTime`: the time, but at least one second after the best candidate. -/
def medianAdjustedTime (best : BestLastCandidate) (adjustedTime : Int) : Int :=
  max adjustedTime (best.header.timestamp + 1)

/-- `vbTopBits`, what `CalcNextBlockVersion` returns. -/
def nextBlockVersion : Int32 := 0x20000000

section Miner

variable (env : Env) (chain : BlockChain env.prim) (current : CandidatePool)

/-- `CheckConnectBlockTemplate`. A node is made from the header of the best candidate. -/
def checkConnectBlockTemplate (best : BestLastCandidate) (msgCandidate : MsgCandidate)
    (blockHeight : Int) (seed : Hash) (pi : Nat) : Check Unit := do
  require (best.hash = msgCandidate.header.prevBlock) .errPrevBlockNotBest
  let _ ← checkCandidateSanity env.prim current msgCandidate seed pi
  let parent := newBlockNode env.prim best.header (chain.index.lookup best.header.prevBlock) 0
  let newNode := newBlockNode env.prim msgCandidate.header (some parent) 0
  let _ ← checkConnectBlock env chain.utxoSet newNode
    { msgBlock := msgCandidateToBlock msgCandidate, height := blockHeight } (.new best.hash)

/-- `NewBlockTemplate`, on top of the best candidate. -/
def newBlockTemplate (best : BestLastCandidate) (publicKey : Hash33) (signature : Hash64)
    (scale : UInt16) (input : TemplateInput) : Check MsgCandidate :=
  let nextBlockHeight := best.height + 1
  let coinbaseTx := createCoinbaseTx env nextBlockHeight input.pkScript input.totalFees
  let transactions := coinbaseTx :: input.selected
  match merkleRoot env.prim transactions with
  | none => .error (.panic .indexOutOfRange)
  | some merkleRoot => do
      let msgCandidate : MsgCandidate :=
        { header :=
            { version := nextBlockVersion
              prevBlock := best.hash
              merkleRoot
              timestamp := medianAdjustedTime best input.adjustedTime
              publicKey, signature, scale
              reserved := 0 }
          transactions
          sigwit := ⟨nextBlockHeight⟩ }
      let pi ← Check.ofPanic (blockVerge scale)
      checkConnectBlockTemplate env chain current best msgCandidate nextBlockHeight.toInt
        (env.prim.doubleHash64 best.header.signature) pi
      pure msgCandidate

/-! ### Producing a candidate -/

/-- What one round of the worker takes from its surroundings. -/
structure GenerateInput where
  rand : BitVec 256
  isCurrent : Bool
  template : TemplateInput
  solvedTime : Int
  deriving DecidableEq, Repr

/-- How a round of the worker ends. -/
inductive Generated
  | waiting
  | overweight
  | failed
  | candidate (bestHash : Hash) (msgCandidate : MsgCandidate)
  deriving DecidableEq, Repr

/-- The time in the header of a candidate is set again. -/
def updateBlockTime (best : BestLastCandidate) (adjustedTime : Int) (msgCandidate : MsgCandidate) :
    MsgCandidate :=
  { msgCandidate with
    header :=
      { msgCandidate.header with timestamp := medianAdjustedTime best adjustedTime } }

/-- `generateBlocks`, up to the candidate. No round ends before the check of `solveBlock`. -/
def generateBlocks (privKey : PrivateKey) (input : GenerateInput) : Except Panic Generated :=
  match chain.bestCandidate with
  | none => .error .nilPointer
  | some best =>
      if best.height ≠ 0 ∧ input.isCurrent = false then .ok .waiting
      else
        let signature := env.prim.sign64 privKey input.rand
          (env.prim.doubleHash64 best.header.signature)
        let scale := (generateBlocksWindow chain.index best).estimate
        match blockVerge scale with
        | .error p => .error p
        | .ok pi =>
            if pi ≤ env.prim.weight signature then .ok .overweight
            else
              match newBlockTemplate env chain current best (env.prim.pubKey privKey) signature
                scale input.template with
              | .ok msgCandidate =>
                  .ok (.candidate best.hash (updateBlockTime best input.solvedTime msgCandidate))
              | .error (.error _) => .ok .failed
              | .error (.panic p) => .error p

/-! ### Voting -/

/-- `BlockVote`: whether the candidate is in the pool of the round, or the own ticket already there,
is not checked. -/
def blockVote (privKey : PrivateKey) (tickets : TicketPool) (order : Order Tickets)
    (rand : BitVec 256) (msgCandidate : MsgCandidate) : Except Panic TicketPool := do
  let headerHash := msgCandidate.blockHash env.prim
  if ← isAdvantage env.prim current tickets order headerHash then
    let headerSign := env.prim.sign64 privKey rand headerHash
    let voteVerge ← votesVerge msgCandidate.header.scale
    if env.prim.weight headerSign ≤ voteVerge then
      return tickets.updateTicketPool headerHash ⟨headerSign, env.prim.pubKey privKey⟩
  return tickets

end Miner

/-! ### What a candidate has passed -/

variable {env : Env} {chain : BlockChain env.prim} {current : CandidatePool}
  {best : BestLastCandidate} {msgCandidate : MsgCandidate}

theorem newBlockTemplate_eq_ok {publicKey : Hash33} {signature : Hash64} {scale : UInt16}
    {input : TemplateInput} (h : newBlockTemplate env chain current best publicKey signature scale
      input = .ok msgCandidate) :
    msgCandidate.header.prevBlock = best.hash ∧ msgCandidate.header.publicKey = publicKey ∧
      msgCandidate.header.signature = signature ∧ msgCandidate.header.scale = scale ∧
      checkBody env.prim (msgCandidateToBlock msgCandidate) = .ok () := by
  simp only [newBlockTemplate] at h
  split at h
  · cases h
  · rw [Checked.bind_eq_ok] at h
    obtain ⟨pi, -, h⟩ := h
    simp only [checkConnectBlockTemplate, Checked.bind_eq_ok, Checked.pure_eq_ok] at h
    obtain ⟨-, ⟨-, -, vb, hs, -⟩, rfl⟩ := h
    exact ⟨rfl, rfl, rfl, rfl, (checkCandidateSanity_eq_ok_iff.1 hs).2⟩

/-- **What a candidate that is produced satisfies.** -/
structure Produced (env : Env) (chain : BlockChain env.prim) (privKey : PrivateKey)
    (rand : BitVec 256) (best : BestLastCandidate) (msgCandidate : MsgCandidate) : Prop where
  best_eq : chain.bestCandidate = some best
  prevBlock_eq : msgCandidate.header.prevBlock = best.hash
  publicKey_eq : msgCandidate.header.publicKey = env.prim.pubKey privKey
  signature_eq : msgCandidate.header.signature =
    env.prim.sign64 privKey rand (env.prim.doubleHash64 best.header.signature)
  scale_eq : msgCandidate.header.scale = (generateBlocksWindow chain.index best).estimate
  weight_lt : ∃ pi, blockVerge (generateBlocksWindow chain.index best).estimate = .ok pi ∧
    env.prim.weight msgCandidate.header.signature < pi
  body : checkBody env.prim (msgCandidateToBlock msgCandidate) = .ok ()

theorem produced_of_generateBlocks {privKey : PrivateKey} {input : GenerateInput} {bestHash : Hash}
    (h : generateBlocks env chain current privKey input = .ok (.candidate bestHash msgCandidate)) :
    ∃ best, best.hash = bestHash ∧ Produced env chain privKey input.rand best msgCandidate := by
  cases hb : chain.bestCandidate with
  | none =>
    rw [generateBlocks, hb] at h
    cases h
  | some best =>
    simp only [generateBlocks, hb] at h
    split_ifs at h with hwa
    · cases h
    split at h
    · cases h
    rename_i pi hpi
    split_ifs at h with hw
    · cases h
    split at h
    · rename_i template ht
      cases h
      obtain ⟨hp, hk, hs, hsc, hbo⟩ := newBlockTemplate_eq_ok ht
      refine ⟨best, rfl, hb, hp, hk, hs, hsc, ⟨pi, hpi, ?_⟩, ?_⟩
      · rw [updateBlockTime, hs]
        exact not_le.1 hw
      · exact (checkBody_congr rfl rfl).trans hbo
    · cases h
    · cases h

end DrcNode
