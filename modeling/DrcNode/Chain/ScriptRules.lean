import DrcNode.Chain.Refinement
import DrcNode.Script.Consensus

/-!
# Which script rules a block is under

The memory pool checks scripts with `StandardVerifyFlags`. `checkConnectBlock` puts its flags
together from the block: strict signatures from version 3 on, `OP_CHECKLOCKTIMEVERIFY` from version
4 on, pay-to-script-hash from a timestamp on, and witness programs never. The check that rejected
old versions is commented out in `checkBlockHeaderContext`, so the producer of a block chooses.

## Main results

* `underConsensusRules_iff`: which blocks are under all rules.
* `policy_implies_consensus`.
-/

namespace DrcNode

open Checked List

/-- What the memory pool enforces as consensus. -/
def consensusFlags : UInt32 :=
  scriptBip16 ||| scriptVerifyDERSignatures ||| scriptVerifyCheckLockTimeVerify |||
    scriptVerifyCheckSequenceVerify ||| scriptVerifyWitness

/-- The flags with which `checkConnectBlock` checks the scripts of a block. -/
def blockFlags (env : Env) (node : BlockNode) (block : Block) : UInt32 :=
  scriptFlags env block.msgBlock.header node.height
    (decide (bip16Activation ≤ node.fields.timestamp))

/-- The node with the script engine of the repository. -/
def Env.withEngine (env : Env) (crypto : Crypto) : Env :=
  { env with prim := { env.prim with executeScript := runScript crypto } }

variable {env : Env} {crypto : Crypto} {node : BlockNode} {block : Block} {utxoSet : UtxoSet}
  {view view' : UtxoViewpoint} {stxos : List SpentTxOut} {flags : UInt32} {tx : MsgTx}
  {txIn : TxIn × Nat}

/-! ### The flags of a block -/

/-- **Which rules a block is under.** -/
theorem hasFlag_blockFlags : (hasFlag (blockFlags env node block) scriptBip16 = true ↔
      bip16Activation ≤ node.fields.timestamp) ∧
    (hasFlag (blockFlags env node block) scriptVerifyDERSignatures = true ↔
      3 ≤ block.msgBlock.header.version ∧ env.params.bip0066Height ≤ node.height) ∧
    (hasFlag (blockFlags env node block) scriptVerifyCheckLockTimeVerify = true ↔
      4 ≤ block.msgBlock.header.version ∧ env.params.bip0065Height ≤ node.height) ∧
    hasFlag (blockFlags env node block) scriptVerifyCheckSequenceVerify = true ∧
    hasFlag (blockFlags env node block) scriptVerifyWitness = false := by
  unfold blockFlags scriptFlags
  by_cases hb16 : bip16Activation ≤ node.fields.timestamp <;>
    by_cases hd : 3 ≤ block.msgBlock.header.version ∧ env.params.bip0066Height ≤ node.height <;>
    by_cases hl : 4 ≤ block.msgBlock.header.version ∧ env.params.bip0065Height ≤ node.height <;>
    simp only [hb16, hd, hl, decide_true, if_true, if_false] <;> decide

theorem hasFlag_blockFlags_consensusFlags :
    hasFlag (blockFlags env node block) consensusFlags = false := by
  obtain ⟨-, -, -, -, hw⟩ := @hasFlag_blockFlags env node block
  rw [Bool.eq_false_iff] at hw ⊢
  intro ha
  apply hw
  unfold hasFlag at ha ⊢
  rw [beq_iff_eq] at ha ⊢
  calc blockFlags env node block &&& scriptVerifyWitness
      = blockFlags env node block &&& consensusFlags &&& scriptVerifyWitness := by
        rw [UInt32.and_assoc]
        rfl
    _ = consensusFlags &&& scriptVerifyWitness := by rw [ha]
    _ = scriptVerifyWitness := by decide

/-! ### Outputs in a block -/

theorem checkInputScript_eq_ok_iff {prim : Primitives} {utxo : UtxoEntry}
    (hi : txIn.1.previousOutPoint.index ≠ 0xffffffff)
    (hu : view.lookupEntry txIn.1.previousOutPoint = some utxo) :
    checkInputScript prim view flags tx txIn = .ok () ↔
      prim.executeScript utxo.pkScript tx txIn.2 flags utxo.amount = .success := by
  rw [checkInputScript, if_neg hi, hu]
  dsimp only
  cases prim.executeScript utxo.pkScript tx txIn.2 flags utxo.amount with
  | success => exact ⟨fun _ => rfl, fun _ => rfl⟩
  | malformed => exact ⟨fun h => (by cases h), fun h => (by cases h)⟩
  | failed => exact ⟨fun h => (by cases h), fun h => (by cases h)⟩

/-! ### Connected blocks -/

/-- A property of the inputs of a block whose scripts are run. -/
def ForInputs (block : Block) (p : MsgTx → TxIn × Nat → Prop) : Prop :=
  ∀ tx ∈ block.msgBlock.transactions, ∀ txIn ∈ tx.txIn.zipIdx,
    txIn.1.previousOutPoint.index ≠ 0xffffffff → p tx txIn

/-- The script of an input passes with the given flags, on the outputs of a view. -/
def Passes (env : Env) (view : UtxoViewpoint) (flags : UInt32) (tx : MsgTx) (txIn : TxIn × Nat) :
    Prop :=
  ∃ utxo, view.lookupEntry txIn.1.previousOutPoint = some utxo ∧
    env.prim.executeScript utxo.pkScript tx txIn.2 flags utxo.amount = .success

/-- **The scripts of a block are under the rules of the memory pool.** -/
def UnderConsensusRules (env : Env) (node : BlockNode) (block : Block) (view : UtxoViewpoint) :
    Prop :=
  ForInputs block fun tx txIn =>
    hasFlag (blockFlags env node block) consensusFlags = true ∧
      Passes env view consensusFlags tx txIn

theorem passes_of_checkInputScript (hi : txIn.1.previousOutPoint.index ≠ 0xffffffff)
    (h : checkInputScript env.prim view flags tx txIn = .ok ()) :
    Passes env view flags tx txIn := by
  cases hu : view.lookupEntry txIn.1.previousOutPoint with
  | none =>
    rw [checkInputScript, if_neg hi, hu] at h
    cases h
  | some utxo => exact ⟨utxo, hu, (checkInputScript_eq_ok_iff hi hu).1 h⟩

theorem passes_blockFlags (h : checkConnectBlock env utxoSet node block view = .ok (view', stxos)) :
    ForInputs block (Passes env view' (blockFlags env node block)) := by
  obtain ⟨-, -, _, -, coinbaseTx, txs, parent, state, hc, rfl, -⟩ := checkConnectBlock_eq_ok_iff.1 h
  intro tx htx txIn hm hi
  have hs := forM_eq_ok.1 (forM_eq_ok.1 hc.scripts tx htx) txIn hm
  exact passes_of_checkInputScript hi hs

/-- **The only connected blocks under all rules are those without a script to check.** -/
theorem underConsensusRules_iff
    (hconnect : checkConnectBlock (env.withEngine crypto) utxoSet node block view =
      .ok (view', stxos)) :
    ForInputs block
        (Passes (env.withEngine crypto) view' (blockFlags (env.withEngine crypto) node block)) ∧
      (UnderConsensusRules (env.withEngine crypto) node block view' ↔
        ∀ tx ∈ block.msgBlock.transactions, ∀ txIn ∈ tx.txIn,
          txIn.previousOutPoint.index = 0xffffffff) := by
  refine ⟨passes_blockFlags hconnect, ?_, ?_⟩
  · intro h tx htx txIn hm
    by_contra hi
    obtain ⟨idx, hid⟩ := mem_iff_getElem?.1 hm
    have ha := (h tx htx (txIn, idx) (mk_mem_zipIdx_iff_getElem?.2 hid) hi).1
    rw [hasFlag_blockFlags_consensusFlags] at ha
    cases ha
  · intro h tx htx txIn hm hi
    exact absurd (h tx htx txIn.1 (fst_mem_of_mem_zipIdx hm)) hi

/-! ### A block of version one -/

/-- Primitives to run the engine with. -/
def sampleCrypto : Crypto where
  sha1 b := b
  sha256 b := b
  ripemd160 b := b
  parsePubKey _ := none
  parseSignature _ := none
  parseDERSignature _ := none
  verify _ _ _ := false

/-- An output locked until height 100, and one that pays to a witness program. -/
def lockedOutPoint : OutPoint := ⟨77, 0⟩

@[inherit_doc lockedOutPoint]
def witnessOutPoint : OutPoint := ⟨78, 0⟩

@[inherit_doc lockedOutPoint]
def lockedUtxos : UtxoSet :=
  (Finmap.singleton lockedOutPoint { amount := 5, pkScript := lockScript [100], blockHeight := 0
                                     isCoinBase := false }).insert witnessOutPoint
    { amount := 5, pkScript := witnessProgramScript (List.replicate 20 1), blockHeight := 0
      isCoinBase := false }

/-- The header of a block of version one, after pay-to-script-hash was activated. -/
def oldVersionHeader : BlockHeader := sampleHeader sampleEnv.genesisHash 0 bip16Activation

/-- A transaction that spends both outputs, with no script and no witness. -/
def unlockingTx : MsgTx := samplePayment [lockedOutPoint, witnessOutPoint] 10

@[inherit_doc oldVersionHeader]
def oldVersionBlock : Block where
  msgBlock := { header := oldVersionHeader, transactions := [sampleCoinbase 1, unlockingTx] }
  height := 1

@[inherit_doc oldVersionHeader]
def oldVersionNode : BlockNode :=
  newBlockNode sampleEnv.prim oldVersionHeader (some sampleEnv.genesisNode) 0

/-- A block of version one spends a locked output and a witness program without any signature. -/
theorem oldVersionBlock_not_underConsensusRules : oldVersionBlock.msgBlock.header.version = 1 ∧
    (∃ view stxos, checkConnectBlock (sampleEnv.withEngine sampleCrypto) lockedUtxos oldVersionNode
        oldVersionBlock (.new sampleEnv.genesisHash) = .ok (view, stxos) ∧
      ¬UnderConsensusRules (sampleEnv.withEngine sampleCrypto) oldVersionNode oldVersionBlock
        view) ∧
    runScript sampleCrypto (lockScript [100]) unlockingTx 0 consensusFlags 5 = .failed ∧
    runScript sampleCrypto (witnessProgramScript (List.replicate 20 1)) unlockingTx 1
      consensusFlags 5 = .failed := by
  refine ⟨rfl, ?_, ?_, ?_⟩
  · have hc : (checkConnectBlock (sampleEnv.withEngine sampleCrypto) lockedUtxos
      oldVersionNode oldVersionBlock (.new sampleEnv.genesisHash)).map (fun _ => ()) = .ok () := by
      decide +kernel
    obtain ⟨⟨view, stxos⟩, hc, -⟩ := map_eq_ok.1 hc
    refine ⟨view, stxos, hc, fun h => ?_⟩
    have ha := (h unlockingTx (.tail _ (.head _)) (⟨lockedOutPoint, [], [], 0xffffffff⟩, 0)
      (.head _) (by decide)).1
    cases ha
  · decide +kernel
  · decide +kernel

/-- The block that holds its coinbase only is under all rules. -/
theorem underConsensusRules_sampleBlock : ∃ view stxos,
    checkConnectBlock (sampleEnv.withEngine sampleCrypto) ∅
        (newBlockNode sampleEnv.prim sampleBlock.header (some sampleEnv.genesisNode) 0)
        { msgBlock := sampleBlock } (.new sampleEnv.genesisHash) = .ok (view, stxos) ∧
      UnderConsensusRules (sampleEnv.withEngine sampleCrypto)
        (newBlockNode sampleEnv.prim sampleBlock.header (some sampleEnv.genesisNode) 0)
        { msgBlock := sampleBlock } view := by
  have hc : (checkConnectBlock (sampleEnv.withEngine sampleCrypto) ∅
      (newBlockNode sampleEnv.prim sampleBlock.header (some sampleEnv.genesisNode) 0)
      { msgBlock := sampleBlock } (.new sampleEnv.genesisHash)).map (fun _ => ()) = .ok () := by
    decide +kernel
  obtain ⟨⟨view, stxos⟩, hc, -⟩ := map_eq_ok.1 hc
  refine ⟨view, stxos, hc, (underConsensusRules_iff hc).2.2 fun tx htx txIn hm => ?_⟩
  obtain rfl := mem_singleton.1 htx
  obtain rfl := mem_singleton.1 hm
  rfl

/-! ### Policy and blocks -/

theorem consensusFlags_blockFlags : ConsensusFlags (blockFlags env node block) := by
  unfold blockFlags scriptFlags
  split_ifs <;> exact ⟨by decide, by decide, by decide, by decide, by decide⟩

/-- **Policy implies consensus**, but for outputs that pay to a witness program that reads as false.
-/
theorem policy_implies_consensus {order : Nat} (hcrypto : crypto.ParsesSignatures order) :
    (∀ env node block, ConsensusFlags (blockFlags env node block)) ∧
      ∀ flags scriptPubKey tx idx amount, ConsensusFlags flags →
        (∀ txIn, tx.txIn[idx]? = some txIn →
          ∀ program, NamesProgram scriptPubKey txIn program → asBool program = true) →
        runScript crypto scriptPubKey tx idx standardVerifyFlags amount = .success →
        runScript crypto scriptPubKey tx idx flags amount = .success :=
  ⟨fun _ _ _ => consensusFlags_blockFlags,
    fun _ _ _ _ _ hf ht h => runScript_of_standard hcrypto hf ht h⟩

/-- Primitives with the parsers of the repository. -/
def parsingCrypto : Crypto :=
  { sampleCrypto with
    sha256 _ := List.replicate 32 1
    parseSignature sigStr := parseSig 2 sigStr false
    parseDERSignature sigStr := parseSig 2 sigStr true }

/-- A transaction that spends a witness program with the script `OP_1`. -/
def witnessTx : MsgTx := { unlockingTx with txIn := [⟨witnessOutPoint, [], [[0x51]], 0xffffffff⟩] }

/-- The memory pool runs the script of the witness; the block has only the program on its stack. -/
theorem policy_implies_consensus_witnessTx :
    runScript parsingCrypto (witnessProgramScript (List.replicate 32 1)) witnessTx 0
        standardVerifyFlags 5 = .success ∧
      runScript parsingCrypto (witnessProgramScript (List.replicate 32 1)) witnessTx 0
        (blockFlags sampleEnv oldVersionNode oldVersionBlock) 5 = .success := by
  have hc : parsingCrypto.ParsesSignatures 2 := ⟨fun _ => rfl, fun _ => rfl⟩
  refine ⟨?run, (policy_implies_consensus hc).2 _ _ _ _ _ consensusFlags_blockFlags ?_ ?run⟩
  · decide +kernel
  intro txIn ht program hpr
  have he : extractWitnessProgramInfo (witnessProgramScript (List.replicate 32 1)) =
      .ok (0, List.replicate 32 1) := by decide +kernel
  cases hpr with
  | bare version h =>
    obtain ⟨-, rfl⟩ := Prod.mk.inj (Except.ok.inj (he.symm.trans h))
    decide
  | nested pop version hp =>
    cases hp

end DrcNode
