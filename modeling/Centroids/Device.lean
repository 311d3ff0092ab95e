import Centroids.Value

/-!
Devices by name.  Many can be named; points can be brought to the main processor only.
-/
namespace Centroids

structure Device where
  kind : String
  /-- The number among the devices of its kind. -/
  place : Option Nat
deriving DecidableEq

namespace Device

def kinds : List String :=
  ["cpu", "cuda", "ipu", "xpu", "mkldnn", "opengl", "opencl", "ideep", "hip", "ve", "fpga", "maia",
    "xla", "lazy", "vulkan", "mps", "meta", "hpu", "mtia", "privateuseone"]

/-- A number of 31 bits, without zeros in front. -/
def placeOf? (digits : List Char) : Option Nat :=
  let n := digits.foldl (fun n c => 10 * n + (c.toNat - '0'.toNat)) 0
  if digits.all Char.isDigit && !digits.isEmpty && (digits = ['0'] || digits.head? ≠ some '0') &&
      n < Nat.pow 2 31 then some n
  else none

/-- A kind, or a kind and a place with a colon between them. -/
def ofName? (name : String) : Option Device := do
  let kind := String.ofList (name.toList.takeWhile (· ≠ ':'))
  guard (kind ∈ kinds)
  match name.toList.dropWhile (· ≠ ':') with
  | [] => return ⟨kind, none⟩
  | _ :: digits => return ⟨kind, some (← placeOf? digits)⟩

example : ofName? "cuda:1" = some ⟨"cuda", some 1⟩ ∧ ofName? "cpu:01" = none := by decide +kernel

end Device

/-- A device is given by name; without one, points stay where they are. -/
def isKnownDevice : Value → Bool
  | .null => true
  | .text name => (Device.ofName? name).isSome
  | _ => false

/-- Whether points can be brought to a device. -/
def isAvailableDevice : Value → Bool
  | .null => true
  | .text name => (Device.ofName? name).any (·.kind = "cpu")
  | _ => false

theorem isKnownDevice_of_isAvailable {v : Value} (h : isAvailableDevice v = true) :
    isKnownDevice v = true := by
  cases v with
  | null => rfl
  | text name =>
    rw [isAvailableDevice] at h
    cases hd : Device.ofName? name with
    | some d => rw [isKnownDevice, hd, Option.isSome_some]
    | none =>
      rw [hd] at h
      cases h
  | _ => cases h

end Centroids
