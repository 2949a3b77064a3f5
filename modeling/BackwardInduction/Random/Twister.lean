/-!
The Mersenne twister with words of 32 bits, seeded by a number of any size, and
whole numbers drawn from it: as many bits as the bound has, drawn again until they
are below it.
-/

namespace BackwardInduction.Random

structure Twister where
  words : Array UInt32
  /-- Place of the next word to give out. -/
  next : Nat

namespace Twister

def size : Nat := 624

def offset : Nat := 397

def word (ws : Array UInt32) (i : Nat) : UInt32 :=
  ws.getD (i % size) 0

/-- The words that follow from one seed word. -/
def fill (seed : UInt32) : Array UInt32 :=
  (List.range (size - 1)).foldl (fun ws i =>
    let last := ws.getD i 0
    ws.push ((last ^^^ (last >>> 30)) * 1812433253 + (i + 1).toUInt32)) #[seed]

/-- Words of 32 bits, the least significant first; at most `steps` of them. -/
def digits : (steps : Nat) → Nat → List UInt32
  | 0, _ => []
  | steps + 1, n => if n = 0 then [] else n.toUInt32 :: digits steps (n >>> 32)

def keyOf (seed : Int) : Array UInt32 :=
  let n := seed.natAbs
  match digits (n.log2 / 32 + 1) n with
  | [] => #[0]
  | ws => ws.toArray

/-- Both passes of seeding walk over the words from the second one on; when they come to
the end, the last word becomes the first. -/
def pass (steps : Nat) (mix : (step : Nat) → (i : Nat) → (word last : UInt32) → UInt32)
    (start : Array UInt32 × Nat) : Array UInt32 × Nat :=
  (List.range steps).foldl (fun (ws, i) step =>
    let ws := ws.setIfInBounds i (mix step i (word ws i) (word ws (i - 1)))
    if i + 1 < size then (ws, i + 1) else (ws.setIfInBounds 0 (word ws (size - 1)), 1)) start

def mixed (last factor : UInt32) : UInt32 :=
  (last ^^^ (last >>> 30)) * factor

def ofSeed (seed : Int) : Twister :=
  let key := keyOf seed
  let first := pass (max size key.size) (fun step _ w last =>
    let j := step % key.size
    (w ^^^ mixed last 1664525) + key.getD j 0 + j.toUInt32) (fill 19650218, 1)
  let second := pass (size - 1) (fun _ i w last =>
    (w ^^^ mixed last 1566083941) - i.toUInt32) first
  { words := second.1.setIfInBounds 0 0x80000000, next := size }

/-- The words after the present ones. -/
def turn (ws : Array UInt32) : Array UInt32 :=
  (List.range size).foldl (fun ws i =>
    let y := (word ws i &&& 0x80000000) ||| (word ws (i + 1) &&& 0x7FFFFFFF)
    let odd : UInt32 := if y &&& 1 = 0 then 0 else 0x9908B0DF
    ws.setIfInBounds i (word ws (i + offset) ^^^ (y >>> 1) ^^^ odd)) ws

def temper (y : UInt32) : UInt32 :=
  let y := y ^^^ (y >>> 11)
  let y := y ^^^ ((y <<< 7) &&& 0x9D2C5680)
  let y := y ^^^ ((y <<< 15) &&& 0xEFC60000)
  y ^^^ (y >>> 18)

def draw (t : Twister) : UInt32 × Twister :=
  let t := if t.next < size then t else ⟨turn t.words, 0⟩
  (temper (word t.words t.next), { t with next := t.next + 1 })

/-- `bits` random bits, whole words first. -/
def drawBits : (bits : Nat) → Twister → Nat × Twister
  | bits, t =>
      if 32 < bits then
        let (low, t) := t.draw
        let (high, t) := drawBits (bits - 32) t
        (low.toNat + (high <<< 32), t)
      else
        let (w, t) := t.draw
        (w.toNat >>> (32 - bits), t)

/-- Draws until the bits are below the bound. Half of all draws are, so the tries do not
run out; if they did, the answer would be zero. -/
def drawBelow (bound : Nat) : (tries : Nat) → Twister → Nat × Twister
  | 0, t => (0, t)
  | tries + 1, t =>
      let (n, t) := drawBits (bound.log2 + 1) t
      if n < bound then (n, t) else drawBelow bound tries t

def tries : Nat := 10000

end Twister

/-- A source of numbers below a bound that is not zero. -/
structure Source (σ : Type) where
  below : Nat → σ → Nat × σ

def twister : Source Twister :=
  ⟨fun bound t => Twister.drawBelow bound Twister.tries t⟩

end BackwardInduction.Random
