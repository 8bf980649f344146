import DrcNode.Chain.Connect

/-!
# The rows of the block index and of the best chain

What the database has of a node of the index is one row, under a key that sorts by height: its
header, its status and its votes. One more row has the state of the best chain, for which the public
key is cut by one byte.

Source: `dbStoreBlockNode`, `blockIndexKey`, `serializeBestChainState` and `dbPutBestState` in
`blockchain/chainio.go`; `blockStatus` in `blockchain/blockindex.go`; `BestState` and `newBestState`
in `blockchain/chain.go`; `GetBlockWeight` in `blockchain/weight.go`.
-/

namespace DrcNode

/-! ### The row of a node -/

/-- `blockStatus`, with one field for each flag. -/
structure BlockStatus where
  dataStored : Bool := false
  valid : Bool := false
  validateFailed : Bool := false
  invalidAncestor : Bool := false
  deriving DecidableEq, Repr

def BlockStatus.knownInvalid (status : BlockStatus) : Bool :=
  status.validateFailed || status.invalidAncestor

/-- The byte of a status. -/
def BlockStatus.byte (status : BlockStatus) : UInt8 :=
  (if status.dataStored then 1 else 0) + (if status.valid then 2 else 0) +
    (if status.validateFailed then 4 else 0) + (if status.invalidAncestor then 8 else 0)

/-- The value that `dbStoreBlockNode` writes: the header, the status and the votes. -/
def writeBlockRow (node : BlockNode) (status : BlockStatus) : List UInt8 :=
  writeBlockHeader node.header ++ leBytes 1 status.byte.toNat ++ leBytes 2 node.votes.toNat

/-- `blockIndexKey`: the height and then the hash, big-endian. -/
def blockIndexKey (node : BlockNode) : Nat := node.height * 2 ^ 256 + node.hash.toNat

/-! ### The snapshot of the tip -/

/-- `BestState`: the snapshot of the tip. -/
structure BestState where
  hash : Hash
  height : Nat
  blockSize : UInt64
  blockWeight : UInt64
  numTxns : UInt64
  totalTxns : UInt64
  medianTime : Int
  pubKey : Hash33
  signature : Hash64
  scale : UInt16
  reserved : UInt16
  votes : UInt16
  deriving DecidableEq, Repr

/-- `GetBlockWeight`. -/
def getBlockWeight (msgBlock : MsgBlock) : Nat :=
  msgBlock.serializeSizeStripped * (witnessScaleFactor - 1) + msgBlock.serializeSize

/-- `newBestState`, with the sizes of the block and the fields of its header. -/
def newBestState (node : BlockNode) (blockSize : Nat) (msgBlock : MsgBlock) (totalTxns : UInt64)
    (signature : Hash64) (pubKey : Hash33) (scale reserved : UInt16) (medianTime : Int)
    (votes : UInt16) : BestState where
  hash := node.hash
  height := node.height
  blockSize := UInt64.ofNat blockSize
  blockWeight := UInt64.ofNat (getBlockWeight msgBlock)
  numTxns := UInt64.ofNat msgBlock.transactions.length
  totalTxns
  medianTime
  signature
  pubKey
  scale
  reserved
  votes

/-- `bestChainState`: what is stored of the snapshot. -/
structure BestChainState where
  hash : Hash
  height : UInt32
  totalTxns : UInt64
  scale : UInt16
  reserved : UInt16
  votes : UInt16
  signature : Hash64
  pubKey : Hash33
  deriving DecidableEq, Repr

/-- `serializeBestChainState`. Of the public key only the first 32 bytes are copied. -/
def serializeBestChainState (state : BestChainState) : List UInt8 :=
  state.hash.bytes ++ leBytes 4 state.height.toNat ++ leBytes 8 state.totalTxns.toNat ++
    leBytes 2 state.scale.toNat ++ leBytes 2 state.reserved.toNat ++
    leBytes 2 state.votes.toNat ++ state.signature.bytes ++ (state.pubKey.bytes.take 32 ++ [0])

/-- `dbPutBestState`: the row of the best chain. -/
def putBestState (snapshot : BestState) : List UInt8 :=
  serializeBestChainState
    { hash := snapshot.hash
      height := UInt32.ofNat snapshot.height
      totalTxns := snapshot.totalTxns
      scale := snapshot.scale
      reserved := snapshot.reserved
      votes := snapshot.votes
      signature := snapshot.signature
      pubKey := snapshot.pubKey }

end DrcNode
