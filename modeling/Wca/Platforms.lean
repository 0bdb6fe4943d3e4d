import Wca.Py.Dict
import Wca.Py.Str

/-!
# The platform and the list format

The part of `Platform` that allocations look at, and the cpuset(7) list format with its two
functions `decodeListformat` and `encodeListformat`.
-/

namespace Wca

open Py

/-- What the system says about Resource Director Technology. -/
structure RDTInformation where
  rdtCacheMonitoringEnabled : Bool
  rdtMbMonitoringEnabled : Bool
  rdtCacheControlEnabled : Bool
  rdtMbControlEnabled : Bool
  cbmMask : Option String
  minCbmBits : Option String
  numClosids : Option ℤ
  mbBandwidthGran : Option ℤ
  mbMinBandwidth : Option ℤ
  deriving DecidableEq

def RDTInformation.isControlEnabled (i : RDTInformation) : Bool :=
  i.rdtMbControlEnabled || i.rdtCacheControlEnabled

def RDTInformation.isMonitoringEnabled (i : RDTInformation) : Bool :=
  i.rdtMbMonitoringEnabled || i.rdtCacheMonitoringEnabled

structure Platform where
  sockets : Nat
  cpus : Nat
  numaNodes : Nat
  /-- from a NUMA node to its cpus -/
  nodeCpus : Dict ℤ (List ℤ)
  rdtInformation : Option RDTInformation
  swapEnabled : Bool
  deriving DecidableEq

/-! ## The list format -/

/-- One item of the list: a number or a range. An item with two dashes or more is passed over. -/
def decodeRange (cores : Finset ℤ) (r : String) : Except Exn (Finset ℤ) :=
  match Str.split '-' r with
  | [core] => do
    let core ← Str.int 10 (Str.strip core)
    pure (insert core cores)
  | [start, «end»] => do
    let start ← Str.int 10 (Str.strip start)
    let «end» ← Str.int 10 (Str.strip «end»)
    pure (cores ∪ rangeSet start «end»)
  | _ => pure cores

def decodeListformat (value : String) : Except Exn (Finset ℤ) :=
  -- empty values like '' or ' '
  if value = "" ∨ Str.strip value = "" then pure ∅
  else (Str.split ',' value).foldlM decodeRange ∅

def encodeListformat (ints : Finset ℤ) : String := Str.join ',' ((sorted ints).map toString)

/-- A text in the list format that is not one raises a `ValueError` and nothing else. -/
theorem decodeListformat_error {value : String} {e : Exn} (h : decodeListformat value = .error e) :
    ∃ msg, e = .ValueError msg := by
  have hrange : ∀ cores r e, decodeRange cores r = .error e → ∃ msg, e = .ValueError msg := by
    intro cores r e h
    unfold decodeRange at h
    split at h
    · rename_i core _
      cases hc : Str.int 10 (Str.strip core) with
      | ok n => rw [hc] at h; cases h
      | error e' => rw [hc] at h; cases h; exact Str.int_error hc
    · rename_i a b _
      cases ha : Str.int 10 (Str.strip a) with
      | error e' => rw [ha] at h; cases h; exact Str.int_error ha
      | ok n =>
        cases hb : Str.int 10 (Str.strip b) with
        | error e' => rw [ha, hb] at h; cases h; exact Str.int_error hb
        | ok m => rw [ha, hb] at h; cases h
    · cases h
  have hfold : ∀ (l : List String) (cores : Finset ℤ) (e : Exn),
      l.foldlM decodeRange cores = .error e → ∃ msg, e = .ValueError msg := by
    intro l
    induction l with
    | nil => intro cores e h; cases h
    | cons r l ih =>
      intro cores e h
      rw [List.foldlM_cons] at h
      cases hr : decodeRange cores r with
      | error e' => rw [hr] at h; cases h; exact hrange cores r _ hr
      | ok cores' => rw [hr] at h; exact ih cores' e h
  unfold decodeListformat at h
  split at h
  · cases h
  · exact hfold _ _ e h

end Wca
