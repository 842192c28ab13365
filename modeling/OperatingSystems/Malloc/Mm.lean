import OperatingSystems.Library.TaggedWord
import OperatingSystems.Malloc.Memlib

namespace OperatingSystems.Malloc
open ByteMemory TaggedWord

def wrap (n : Nat) : Nat := n % 2 ^ 64

-- `(size_t*)p + words`
def offset (p : Nat) (words : Int) : Nat := (((p : Int) + 8 * words) % 2 ^ 64).toNat

def align (x : Nat) : Nat := wrap (16 * (wrap (x + 16 - 1) / 16))

def requiredBlockSize (size : Nat) : Nat :=
  let required := align (wrap (size + 8))
  if required < 32 then 32 else required

namespace Heap

def sizeNode (s : Heap) (block : Nat) : Nat := s.load block
def nextNode (s : Heap) (block : Nat) : Nat := s.load (block + 8)
def prevNode (s : Heap) (block : Nat) : Nat := s.load (block + 16)

def setSizeNode (s : Heap) (block v : Nat) : Heap := s.store block v
def setNextNode (s : Heap) (block v : Nat) : Heap := s.store (block + 8) v
def setPrevNode (s : Heap) (block v : Nat) : Heap := s.store (block + 16) v

def blockSize (s : Heap) (block : Nat) : Nat := s.sizeNode block &&& complement 3

def removeFromFreeList (s : Heap) (block : Nat) : Heap :=
  let s :=
    if s.prevNode block ≠ 0 then s.setNextNode (s.prevNode block) (s.nextNode block)
    else { s with freeBlockPointer := s.nextNode block }
  if s.nextNode block ≠ 0 then s.setPrevNode (s.nextNode block) (s.prevNode block) else s

def addToFreeList (s : Heap) (block : Nat) : Heap :=
  let s := s.setPrevNode block 0
  let s := s.setNextNode block s.freeBlockPointer
  let s := if s.freeBlockPointer ≠ 0 then s.setPrevNode s.freeBlockPointer block else s
  { s with freeBlockPointer := block }

def mmInit (s : Heap) : Bool × Heap :=
  let (heapStart, s) := s.mmSbrk (4096 + 16)
  if heapStart = sbrkFailed then (false, s)
  else
    let heapEnd := s.mmHeapHi + 1
    let s := s.store heapStart 1
    let freeBlock := heapStart + 8
    let s := s.setSizeNode freeBlock 4096
    let s := s.setPrevNode freeBlock 0
    let s := s.setNextNode freeBlock 0
    let s := s.setSizeNode freeBlock (s.sizeNode freeBlock ^^^ 2)
    let s := { s with freeBlockPointer := freeBlock }
    let s := s.store (offset heapEnd (-2)) 4096
    let s := s.store (offset heapEnd (-1)) 1
    (true, s)

-- `none`: the walk along `next_node` does not end, as more than `2 ^ 64` steps repeat an address
def searchFrom (s : Heap) (size : Nat) : Nat → Nat → Option Nat
  | 0, _ => none
  | fuel + 1, look =>
    if look = 0 then some 0
    else if size ≤ s.blockSize look then some look
    else searchFrom s size fuel (s.nextNode look)

def search (s : Heap) (size : Nat) : Option Nat :=
  s.searchFrom size (2 ^ 64) s.freeBlockPointer

def setAllocated (s : Heap) (block size : Nat) : Heap :=
  if s.sizeNode block &&& 2 ≠ 0 then
    let s := s.setSizeNode block (size ||| 1)
    s.setSizeNode block (s.sizeNode block ^^^ 2)
  else s.setSizeNode block (size ||| 1)

def setFree (s : Heap) (block size : Nat) : Heap :=
  if s.sizeNode block &&& 2 ≠ 0 then
    let s := s.setSizeNode block size
    s.setSizeNode block (s.sizeNode block ^^^ 2)
  else s.setSizeNode block size

def togglePrev (s : Heap) (header : Nat) : Heap := s.store header (s.load header ^^^ 2)

def takeWhole (s : Heap) (block currentSize : Nat) : Nat × Heap :=
  let s := s.setAllocated block currentSize
  let s := s.togglePrev (offset block (currentSize / 8 : Nat))
  let s := s.removeFromFreeList block
  (offset block 1, s)

def takeSplit (s : Heap) (block currentSize requiredBlockSize : Nat) : Nat × Heap :=
  let extraSize := currentSize - requiredBlockSize
  let s := s.setFree block extraSize
  let s := s.store (offset block ((extraSize / 8 : Nat) - 1)) extraSize
  let allocHeader := offset block (extraSize / 8 : Nat)
  let s := s.store allocHeader (requiredBlockSize ||| 1)
  let s := s.togglePrev (offset block (currentSize / 8 : Nat))
  (offset allocHeader 1, s)

def extend (s : Heap) (requiredBlockSize : Nat) : Nat × Heap :=
  let (newBlockPtr, s) := s.mmSbrk requiredBlockSize
  if newBlockPtr = sbrkFailed then (0, s)
  else
    let newHeapEnd := s.mmHeapHi + 1
    let newBlockHeader := newBlockPtr - 8
    let s := s.setAllocated newBlockHeader requiredBlockSize
    let s := s.store (offset newHeapEnd (-1)) 3
    (newBlockPtr, s)

def malloc (s : Heap) (size : Nat) : Option (Nat × Heap) :=
  if size = 0 then some (0, s)
  else
    let required := requiredBlockSize size
    (s.search required).map fun block =>
      if block ≠ 0 then
        let currentSize := s.blockSize block
        let remainingSize := currentSize - required
        if remainingSize ≤ 32 ∨ currentSize = required then s.takeWhole block currentSize
        else s.takeSplit block currentSize required
      else s.extend required

def inRange (s : Heap) (header : Nat) : Prop :=
  offset s.mmHeapLo 1 ≤ header ∧ header < offset s.mmHeapHi (-7)

instance (s : Heap) (header : Nat) : Decidable (s.inRange header) :=
  inferInstanceAs (Decidable (_ ∧ _))

def prevHeader (s : Heap) (block : Nat) : Nat :=
  offset block (-((s.load (offset block (-1)) &&& complement 3) / 8 : Nat))

def mergePrev (s : Heap) (block currentSize : Nat) : Heap × Nat × Nat :=
  let prevBlock := s.prevHeader block
  if s.sizeNode block &&& 2 = 0 ∧ s.inRange prevBlock then
    let s := s.removeFromFreeList prevBlock
    (s, wrap (currentSize + s.blockSize prevBlock), prevBlock)
  else (s, currentSize, block)

def mergeNext (s : Heap) (nextHeader mergedSize : Nat) : Heap × Nat :=
  if s.inRange nextHeader ∧ s.load nextHeader &&& 1 = 0 then
    let s := s.removeFromFreeList nextHeader
    (s, wrap (mergedSize + s.blockSize nextHeader))
  else (s, mergedSize)

def rebuild (s : Heap) (block mergedBlock mergedSize : Nat) : Heap :=
  let s := s.removeFromFreeList block
  let s := s.setSizeNode mergedBlock mergedSize
  let s := s.setSizeNode mergedBlock (s.sizeNode mergedBlock ^^^ 2)
  let s := s.store (offset mergedBlock ((mergedSize / 8 : Nat) - 1)) mergedSize
  s.addToFreeList mergedBlock

def coalesce (s : Heap) (block : Nat) : Heap :=
  let currentSize := s.blockSize block
  let (s, mergedSize, mergedBlock) := s.mergePrev block currentSize
  let (s, mergedSize) := s.mergeNext (offset block (currentSize / 8 : Nat)) mergedSize
  if mergedSize ≠ currentSize then s.rebuild block mergedBlock mergedSize else s

def markFree (s : Heap) (block : Nat) : Heap :=
  let s := s.setSizeNode block (s.sizeNode block &&& complement 1)
  let size := s.blockSize block
  let s := s.store (offset block ((size / 8 : Nat) - 1)) size
  let next := offset block (size / 8 : Nat)
  s.store next (s.load next &&& complement 2)

def free (s : Heap) (ptr : Nat) : Heap :=
  if ptr = 0 then s
  else
    let block := ptr - 8
    let s := s.markFree block
    let s := s.addToFreeList block
    s.coalesce block

def copyPayload (s : Heap) (newMemory oldptr size : Nat) : Heap :=
  let oldBlockSize := s.blockSize (oldptr - 8)
  let bytesToCopy := if oldBlockSize < size then oldBlockSize else size
  { s with mem := mmMemcpy s.mem newMemory oldptr bytesToCopy }

def realloc (s : Heap) (oldptr size : Nat) : Option (Nat × Heap) :=
  if oldptr = 0 then s.malloc size
  else if size = 0 then some (0, s.free oldptr)
  else
    (s.malloc size).map fun (newMemory, s) =>
      let s := if newMemory ≠ 0 then s.copyPayload newMemory oldptr size else s
      (newMemory, s.free oldptr)

def calloc (s : Heap) (nmemb size : Nat) : Option (Nat × Heap) :=
  let size := wrap (size * nmemb)
  (s.malloc size).map fun (ptr, s) =>
    (ptr, if ptr ≠ 0 then { s with mem := mmMemset s.mem ptr 0 size } else s)

end Heap

end OperatingSystems.Malloc
