import Mathlib.Algebra.Group.Nat.Defs
import Mathlib.Logic.Function.Basic
import Hwfq.SetBits
import Hwfq.Types

/-!
# The flow trie

`hwfq_flow_trie.c`: a bitmap of flow ids with three levels of summary bits above it.
In the leaf a set bit is an allocated id; above it a set bit says that the word below
has something free. Words past the end of an array read as zero; none is ever used.
-/
namespace Hwfq
open SetBits

/-- Set bits count from one; zero says that there is none. -/
def findFirstSetBit64 (value : BitVec 64) : ℕ := if value = 0#64 then 0 else ctz value + 1

def findFirstZeroBit64 (value : BitVec 64) : ℕ := findFirstSetBit64 (~~~value)

def setBit (array : ℕ → BitVec 64) (bitIndex : ℕ) : ℕ → BitVec 64 :=
  Function.update array (bitIndex / 64) (set (array (bitIndex / 64)) (bitIndex % 64))

def clearBit (array : ℕ → BitVec 64) (bitIndex : ℕ) : ℕ → BitVec 64 :=
  Function.update array (bitIndex / 64) (clear (array (bitIndex / 64)) (bitIndex % 64))

def testBit (array : ℕ → BitVec 64) (bitIndex : ℕ) : Bool :=
  (array (bitIndex / 64)).getLsbD (bitIndex % 64)

def bitsToWords (numBits : ℕ) : ℕ := u32 (numBits + 63) / 64

structure FlowTrie where
  level2 : BitVec 64
  level1 : ℕ → BitVec 64
  level0 : ℕ → BitVec 64
  leaf : ℕ → BitVec 64
  level1Size : ℕ
  level0Size : ℕ
  leafSize : ℕ
  maxFlows : ℕ
  allocatedCount : ℕ

/-- `(1ULL << used) - 1`. -/
def lowMask (used : ℕ) : BitVec 64 := (1#64 <<< used) - 1#64

/-- `memset` of an array of `size` words. -/
def filled (size : ℕ) (value : BitVec 64) : ℕ → BitVec 64 := fun w => if w < size then value else 0#64

/-- The last of `size` words keeps the bits in use, here `items` in all the words. -/
def maskLast (array : ℕ → BitVec 64) (size items : ℕ) : ℕ → BitVec 64 :=
  if items % 64 ≠ 0 then
    Function.update array (size - 1) (array (size - 1) &&& lowMask (items % 64))
  else array

/-- The three arrays and the top word with nothing allocated. The bits of the last leaf
word past `max_flows` are marked as allocated. -/
def blankTrie (maxFlows : ℕ) : FlowTrie :=
  let leafSize := bitsToWords maxFlows
  let level0Size := bitsToWords leafSize
  let level1Size := bitsToWords level0Size
  let leaf := filled leafSize 0#64
  { level2 := if level1Size < 64 then BitVec.allOnes 64 &&& lowMask level1Size
      else BitVec.allOnes 64
    level1 := maskLast (filled level1Size (BitVec.allOnes 64)) level1Size level0Size
    level0 := maskLast (filled level0Size (BitVec.allOnes 64)) level0Size leafSize
    leaf :=
      if maxFlows % 64 ≠ 0 then
        Function.update leaf (leafSize - 1) (leaf (leafSize - 1) ||| ~~~lowMask (maxFlows % 64))
      else leaf
    level1Size := level1Size
    level0Size := level0Size
    leafSize := leafSize
    maxFlows := maxFlows
    allocatedCount := 0 }

/-- Update upper levels if a leaf word is now full. -/
def updateFull (t : FlowTrie) (leafWordIdx l0WordIdx l1WordIdx : ℕ) : FlowTrie :=
  if t.leaf leafWordIdx = BitVec.allOnes 64 then
    let t := { t with level0 := clearBit t.level0 leafWordIdx }
    if t.level0 l0WordIdx = 0#64 then
      let t := { t with level1 := clearBit t.level1 l0WordIdx }
      if t.level1 l1WordIdx = 0#64 then { t with level2 := clear t.level2 l1WordIdx } else t
    else t
  else t

/-- Reserve flow id 0. -/
def reserveZero (t : FlowTrie) : FlowTrie :=
  let t := { t with
    leaf := Function.update t.leaf 0 (t.leaf 0 ||| 1#64)
    allocatedCount := 1 }
  updateFull t 0 0 0

def hwfqFlowTrieInit (mem : Allocator) (maxFlows : ℕ) : Except Status FlowTrie × Allocator :=
  if maxFlows = 0 then (.error .invalidArg, mem)
  else
    let t := blankTrie maxFlows
    match hwfqAlloc mem t.leafSize with
    | (none, mem) => (.error .noMemory, mem)
    | (some _, mem) =>
        match hwfqAlloc mem t.level0Size with
        | (none, mem) => (.error .noMemory, mem)
        | (some _, mem) =>
            match hwfqAlloc mem t.level1Size with
            | (none, mem) => (.error .noMemory, mem)
            | (some _, mem) => (.ok (reserveZero t), mem)

def hwfqFlowTrieAlloc (t : FlowTrie) : Except Status ℕ × FlowTrie :=
  if t.level2 = 0#64 then (.error .noMemory, t)
  else
    let l2Bit := findFirstSetBit64 t.level2
    if l2Bit = 0 then (.error .noMemory, t)
    else
      let l1WordIdx := l2Bit - 1
      let l1Bit := findFirstSetBit64 (t.level1 l1WordIdx)
      if l1Bit = 0 then (.error .internal, t)
      else
        let l0WordIdx := l1WordIdx * 64 + (l1Bit - 1)
        let l0Bit := findFirstSetBit64 (t.level0 l0WordIdx)
        if l0Bit = 0 then (.error .internal, t)
        else
          let leafWordIdx := l0WordIdx * 64 + (l0Bit - 1)
          let leafBit := findFirstZeroBit64 (t.leaf leafWordIdx)
          if leafBit = 0 then (.error .internal, t)
          else
            let flowId := leafWordIdx * 64 + (leafBit - 1)
            if flowId ≥ t.maxFlows then (.error .noMemory, t)
            else
              let taken := { t with
                leaf := setBit t.leaf flowId
                allocatedCount := u32 (t.allocatedCount + 1) }
              (.ok flowId, updateFull taken leafWordIdx l0WordIdx l1WordIdx)

def hwfqFlowTrieFree (t : FlowTrie) (flowId : ℕ) : FlowTrie :=
  if flowId = 0 ∨ flowId ≥ t.maxFlows then t
  else if ¬testBit t.leaf flowId then t
  else
    let leafWordIdx := flowId / 64
    let l0WordIdx := leafWordIdx / 64
    let l1WordIdx := l0WordIdx / 64
    let given := { t with
      leaf := clearBit t.leaf flowId
      allocatedCount := subU32 t.allocatedCount 1 }
    if t.leaf leafWordIdx = BitVec.allOnes 64 then
      let given := { given with level0 := setBit given.level0 leafWordIdx }
      if given.level0 l0WordIdx = 1#64 <<< (leafWordIdx % 64) then
        let given := { given with level1 := setBit given.level1 l0WordIdx }
        if given.level1 l1WordIdx = 1#64 <<< (l0WordIdx % 64) then
          { given with level2 := set given.level2 l1WordIdx }
        else given
      else given
    else given

def hwfqFlowTrieIsAllocated (t : FlowTrie) (flowId : ℕ) : Bool :=
  if flowId ≥ t.maxFlows then false else testBit t.leaf flowId

def hwfqFlowTrieFreeCount (t : FlowTrie) : ℕ := subU32 t.maxFlows t.allocatedCount

end Hwfq
