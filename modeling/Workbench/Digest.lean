/-!
# BLAKE3

The hash of a byte list. The input is cut into chunks of 1024 bytes and each
chunk into blocks of 64; chunks are the leaves of a binary tree whose left
side is always a full power of two. The digest is the root's first 32 bytes.
-/

namespace Workbench.Digest

abbrev Words (n : Nat) := Vector UInt32 n

def initial : Words 8 :=
  #v[0x6a09e667, 0xbb67ae85, 0x3c6ef372, 0xa54ff53a, 0x510e527f, 0x9b05688c, 0x1f83d9ab, 0x5be0cd19]

/-- Where each message word moves between two rounds. -/
def schedule : Vector (Fin 16) 16 := #v[2, 6, 3, 10, 7, 0, 4, 13, 1, 11, 12, 5, 9, 14, 15, 8]

def rotateRight (x : UInt32) (n : UInt32) : UInt32 := (x >>> n) ||| (x <<< (32 - n))

def mix (v : Words 16) (a b c d : Fin 16) (x y : UInt32) : Words 16 :=
  let v := v.set a (v[a] + v[b] + x)
  let v := v.set d (rotateRight (v[d] ^^^ v[a]) 16)
  let v := v.set c (v[c] + v[d])
  let v := v.set b (rotateRight (v[b] ^^^ v[c]) 12)
  let v := v.set a (v[a] + v[b] + y)
  let v := v.set d (rotateRight (v[d] ^^^ v[a]) 8)
  let v := v.set c (v[c] + v[d])
  v.set b (rotateRight (v[b] ^^^ v[c]) 7)

def round (v : Words 16) (m : Words 16) : Words 16 :=
  let v := mix v 0 4 8 12 m[0] m[1]
  let v := mix v 1 5 9 13 m[2] m[3]
  let v := mix v 2 6 10 14 m[4] m[5]
  let v := mix v 3 7 11 15 m[6] m[7]
  let v := mix v 0 5 10 15 m[8] m[9]
  let v := mix v 1 6 11 12 m[10] m[11]
  let v := mix v 2 7 8 13 m[12] m[13]
  mix v 3 4 9 14 m[14] m[15]

def rounds : Nat → Words 16 → Words 16 → Words 16
  | 0, v, _ => v
  | n + 1, v, m => rounds n (round v m) (schedule.map (m[·]))

structure Node where
  key : Words 8
  block : Words 16
  counter : UInt64
  length : UInt32
  flags : UInt32

def Node.compress (n : Node) : Words 8 :=
  let v : Words 16 :=
    #v[n.key[0], n.key[1], n.key[2], n.key[3], n.key[4], n.key[5], n.key[6], n.key[7],
      initial[0], initial[1], initial[2], initial[3],
      n.counter.toUInt32, (n.counter >>> 32).toUInt32, n.length, n.flags]
  let v := rounds 7 v n.block
  Vector.ofFn fun i : Fin 8 => v[i.val] ^^^ v[i.val + 8]

def chunkStart : UInt32 := 1
def chunkEnd : UInt32 := 2
def parentFlag : UInt32 := 4
def rootFlag : UInt32 := 8

def pieces {α} (n : Nat) : Nat → List α → List (List α)
  | 0, _ => []
  | _ + 1, [] => []
  | fuel + 1, xs => xs.take n :: pieces n fuel (xs.drop n)

def word (bytes : List UInt8) (i : Nat) : UInt32 :=
  let at_ (k : Nat) : UInt32 := (bytes.getD (4 * i + k) 0).toUInt32
  at_ 0 ||| (at_ 1 <<< 8) ||| (at_ 2 <<< 16) ||| (at_ 3 <<< 24)

def blockWords (bytes : List UInt8) : Words 16 := Vector.ofFn fun i : Fin 16 => word bytes i.val

/-- The last node of a chunk, given its blocks. -/
def chunkFrom (counter : UInt64) (key : Words 8) (start : UInt32) : List (List UInt8) → Node
  | [] => ⟨key, blockWords [], counter, 0, start ||| chunkEnd⟩
  | [b] => ⟨key, blockWords b, counter, b.length.toUInt32, start ||| chunkEnd⟩
  | b :: r =>
    chunkFrom counter (Node.compress ⟨key, blockWords b, counter, b.length.toUInt32, start⟩) 0 r

def chunk (counter : UInt64) (bytes : List UInt8) : Node :=
  chunkFrom counter initial chunkStart (pieces 64 (bytes.length / 64 + 1) bytes)

def parent (l r : Node) : Node :=
  let lk := l.compress
  let rk := r.compress
  ⟨initial, Vector.ofFn fun i : Fin 16 => if h : i.val < 8 then lk[i.val] else rk[i.val - 8], 0, 64, parentFlag⟩

/-- The tree over chunks numbered from `counter`; the fuel is their number. -/
def subtree : Nat → Nat → List (List UInt8) → Node
  | 0, counter, _ => chunk counter.toUInt64 []
  | _ + 1, counter, [] => chunk counter.toUInt64 []
  | _ + 1, counter, [c] => chunk counter.toUInt64 c
  | fuel + 1, counter, cs =>
    let left := Nat.pow 2 (cs.length - 1).log2
    parent (subtree fuel counter (cs.take left)) (subtree fuel (counter + left) (cs.drop left))

def root (bytes : List UInt8) : Node :=
  let cs := pieces 1024 (bytes.length / 1024 + 1) bytes
  subtree (cs.length + 1) 0 cs

def hash (bytes : List UInt8) : Words 8 :=
  let n := root bytes
  Node.compress { n with flags := n.flags ||| rootFlag, counter := 0 }

def hexByte (n : Nat) : List Char := [Nat.digitChar (n / 16 % 16), Nat.digitChar (n % 16)]

def wordHex (w : UInt32) : List Char :=
  ([0, 8, 16, 24] : List UInt32).flatMap fun shift => hexByte ((w >>> shift).toNat % 256)

def hex (bytes : List UInt8) : List Char := (hash bytes).toList.flatMap wordHex

end Workbench.Digest
