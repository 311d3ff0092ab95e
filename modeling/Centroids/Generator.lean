import Centroids.Number.Scalar
import Centroids.Effect
import Centroids.Value

/-!
The source of randomness: a feedback register of 624 words, and the choices that are drawn from it.
A choice that is refused draws nothing.
-/
namespace Centroids

structure Generator where
  words : Vector UInt32 624
  /-- How many of the words have been drawn. -/
  drawn : Nat
deriving DecidableEq

/-- A random choice.  The generator is kept when it fails. -/
abbrev Random := EStateM Fault Generator

namespace Generator

def spread (seed : UInt32) : (n : Nat) → Vector UInt32 (n + 1)
  | 0 => #v[seed]
  | n + 1 =>
    let words := spread seed n
    words.push ((1812433253 : UInt32) * (words.back ^^^ (words.back >>> 30)) + UInt32.ofNat (n + 1))

/-- Only the low 32 bits of a seed count. -/
def ofSeed (seed : Int) : Generator := ⟨spread (.ofNat (seed % Int.pow 2 32).toNat) 623, 624⟩

/-- Joins the high bit of one word to the low bits of the next. -/
def splice (high low : UInt32) : UInt32 :=
  let y := (high &&& 0x80000000) ||| (low &&& 0x7fffffff)
  (y >>> 1) ^^^ (if y &&& 1 = 0 then 0 else 0x9908b0df)

/-- Renews all words, each from words some of which are renewed already. -/
def twist (words : Vector UInt32 624) : Vector UInt32 624 :=
  Nat.fold 624 (fun i h words =>
    words.set i (words.get ⟨(i + 397) % 624, Nat.mod_lt _ (by decide)⟩ ^^^
      splice words[i] (words.get ⟨(i + 1) % 624, Nat.mod_lt _ (by decide)⟩))) words

def temper (y : UInt32) : UInt32 :=
  let y := y ^^^ (y >>> 11)
  let y := y ^^^ ((y <<< 7) &&& 0x9d2c5680)
  let y := y ^^^ ((y <<< 15) &&& 0xefc60000)
  y ^^^ (y >>> 18)

def next (g : Generator) : UInt32 × Generator :=
  if h : g.drawn < 624 then (temper g.words[g.drawn], ⟨g.words, g.drawn + 1⟩)
  else
    let words := twist g.words
    (temper words[0], ⟨words, 1⟩)

end Generator

namespace Random

def word : Random Nat := fun g =>
  let (w, g) := g.next
  .ok w.toNat g

/-- Two words as one number, the high one first. -/
def wide : Random Nat := do
  let high ← word
  return high * Nat.pow 2 32 + (← word)

/-- A whole number below `n`; a large range takes two words. -/
def below (n : Nat) : Random Nat :=
  if n = 0 then throw .emptyChoice
  else if n < Nat.pow 2 28 then return (← word) % n
  else return (← wide) % n

theorem below_lt {n k : Nat} {g g' : Generator} (h : below n g = .ok k g') : k < n := by
  unfold below at h
  split at h
  · exact nomatch h
  · have hn : 0 < n := by omega
    split at h <;>
    · obtain ⟨w, u, -, hw⟩ := step_bind_eq_ok.1 h
      obtain ⟨rfl, -⟩ := step_pure_eq_ok.1 hw
      exact Nat.mod_lt _ hn

def grain : Random Nat := return (← wide) % Nat.pow 2 53

/-- Lets the first entry of a list, or one of the others, change places with the first. -/
def exchange {β : Type} (x : β) (rest : List β) : Nat → β × List β
  | 0 => (x, rest)
  | z + 1 =>
    match rest[z]? with
    | some w => (w, rest.set z x)
    | none => (x, rest)

@[simp] theorem length_exchange {β : Type} (x : β) (rest : List β) (z : Nat) :
    (exchange x rest z).2.length = rest.length := by
  cases z with
  | zero => rfl
  | succ z => rw [exchange]; split <;> simp

theorem perm_set_cons {β : Type} {xs : List β} {z : Nat} {w : β} (h : xs[z]? = some w) (x : β) :
    (w :: xs.set z x).Perm (x :: xs) := by
  induction xs generalizing z with
  | nil => simp at h
  | cons y xs ih =>
    cases z with
    | zero =>
      obtain rfl : y = w := by simpa using h
      exact List.Perm.swap _ _ _
    | succ z =>
      have hr : (w :: xs.set z x).Perm (x :: xs) := ih (by simpa using h)
      exact (List.Perm.swap _ _ _).trans ((hr.cons y).trans (List.Perm.swap _ _ _))

theorem exchange_perm {β : Type} (x : β) (rest : List β) (z : Nat) :
    ((exchange x rest z).1 :: (exchange x rest z).2).Perm (x :: rest) := by
  cases z with
  | zero => exact .refl _
  | succ z =>
    rw [exchange]
    split
    · next w hw => exact perm_set_cons hw x
    · exact .refl _

/-- A permutation of a list: each place in turn takes one of the entries that are left, and the entry
it held goes to where that one was. -/
def shuffle {β : Type} : List β → Random (List β)
  | [] => return []
  | [x] => return [x]
  | x :: y :: rest => do
    let z ← below (rest.length + 2)
    return (exchange x (y :: rest) z).1 :: (← shuffle (exchange x (y :: rest) z).2)
termination_by xs => xs.length

theorem shuffle_perm {β : Type} {xs ys : List β} {g g' : Generator}
    (h : shuffle xs g = .ok ys g') : ys.Perm xs := by
  fun_induction shuffle xs generalizing ys g g' with
  | case1 =>
    obtain ⟨rfl, -⟩ := step_pure_eq_ok.1 h
    exact .refl _
  | case2 x =>
    obtain ⟨rfl, -⟩ := step_pure_eq_ok.1 h
    exact .refl _
  | case3 x y rest ih =>
    obtain ⟨z, u, -, h⟩ := step_bind_eq_ok.1 h
    obtain ⟨zs, v, hz, h⟩ := step_bind_eq_ok.1 h
    obtain ⟨rfl, -⟩ := step_pure_eq_ok.1 h
    exact ((ih z hz).cons _).trans (exchange_perm x (y :: rest) z)

section Weights

variable {ω : Type} [Sampled ω]

/-- Weights from which a choice can be made: finite, none negative, not all zero. -/
def checkWeights (weights : List ω) : Random Unit :=
  if weights.all (fun w => Scalar.isFinite w && !Scalar.lt w 0) && !(Scalar.total weights == 0) then
    return ()
  else throw .samplingWeights

def runningSums : ω → List ω → List ω
  | _, [] => []
  | start, w :: weights => (start + w) :: runningSums (start + w) weights

/-- The upper ends of the parts of the unit interval that belong to the weights; the last is one. -/
def thresholds (weights : List ω) : List ω :=
  let sums := runningSums 0 weights
  let last := sums.getLastD 0
  sums.dropLast.map (· / last) ++ [Scalar.ofNat 1]

/-- Numbers drawn with the given weights, with replacement.  A single one is the winner of a race of
exponential clocks. -/
def weighted (weights : List ω) (count : Nat) : Random (List Nat) := do
  checkWeights weights
  if count = 1 then
    let speeds ← weights.mapM fun w => return w / Sampled.exponential (← grain)
    return [Scalar.argmax speeds]
  else
    let ends := thresholds weights
    (List.range count).mapM fun _ => do
      let u : ω := Sampled.uniform (← grain)
      return (ends.takeWhile (Scalar.lt · u)).length

end Weights

end Random

inductive RandomState
  | value (v : Value)
  | generator (g : Generator)

namespace RandomState

/-- A seed has 64 bits, signed or not.  Without one the generator starts from entropy, which comes
from outside. -/
def resolve (entropy : Int) : RandomState → Except Fault Generator
  | generator g => .ok g
  | value .null => .ok (Generator.ofSeed entropy)
  | value (.int seed) =>
    if -Int.pow 2 63 ≤ seed ∧ seed < Int.pow 2 64 then .ok (Generator.ofSeed seed)
    else .error .seedOutOfRange
  | value v => .error (.randomStateType v.typeText)

end RandomState

end Centroids
