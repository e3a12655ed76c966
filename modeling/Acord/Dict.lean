import Mathlib.Tactic.Common
import Mathlib.Data.List.Basic

/-! The values frames are made of, with the accessors the daemon uses and the exceptions they
throw, and the frame itself. -/

namespace Ac

/-- A byte string; nothing makes it valid UTF-8. -/
abbrev Str := List UInt8

def lit (s : String) : Str := s.toUTF8.data.toList

/-- A `std::exception`: `stream_closed_error`, which the session coroutines catch by type, or
any other one with its `what()`. -/
inductive Exn
  | streamClosed
  | error (what : Str)
  deriving DecidableEq, Repr

def Exn.what : Exn → Str
  | .streamClosed => lit "stream closed"
  | .error w => w

/-- `ac::Dict`. Floats are the bits of a double; an object lists its members, each key once. -/
inductive Dict
  | null
  | boolean (b : Bool)
  | integer (i : Int)
  | float (bits : UInt64)
  | str (s : Str)
  | blob (b : List UInt8)
  | array (xs : List Dict)
  | object (kvs : List (Str × Dict))
  deriving Inhabited

namespace Dict

def strings (xs : List Str) : Dict := .array (xs.map .str)

def size : Dict → Nat
  | .null => 0
  | .array xs => xs.length
  | .object kvs => kvs.length
  | _ => 1

def index (d : Dict) (i : Nat) : Except Exn Dict :=
  match d with
  | .array xs => .ok (xs.getD i .null)
  | _ => .error (.error (lit "type_error.305"))

def getRefStr : Dict → Except Exn Str
  | .str s => .ok s
  | _ => .error (.error (lit "type_error.303"))

def find? (kvs : List (Str × Dict)) (k : Str) : Option Dict :=
  (kvs.find? fun kv => kv.1 = k).map (·.2)

def key (d : Dict) (k : Str) : Except Exn Dict :=
  match d with
  | .null => .ok .null
  | .object kvs => .ok ((find? kvs k).getD .null)
  | _ => .error (.error (lit "type_error.305"))

end Dict

/-! Valid UTF-8, as `dump()` checks it. -/

def utf8Tail (b : UInt8) : Bool := 0x80 ≤ b && b ≤ 0xBF

def utf8Two (a b : UInt8) : Bool := 0xC2 ≤ a && a ≤ 0xDF && utf8Tail b

def utf8Three (a b c : UInt8) : Bool :=
  0xE0 ≤ a && a ≤ 0xEF && utf8Tail b && utf8Tail c && (a != 0xE0 || 0xA0 ≤ b) &&
    (a != 0xED || b ≤ 0x9F)

def utf8Four (a b c d : UInt8) : Bool :=
  0xF0 ≤ a && a ≤ 0xF4 && utf8Tail b && utf8Tail c && utf8Tail d && (a != 0xF0 || 0x90 ≤ b) &&
    (a != 0xF4 || b ≤ 0x8F)

def validUtf8 : Str → Bool
  | [] => true
  | a :: r =>
    if a < 0x80 then validUtf8 r
    else match r with
      | [] => false
      | b :: r =>
        if utf8Two a b then validUtf8 r
        else match r with
          | [] => false
          | c :: r =>
            if utf8Three a b c then validUtf8 r
            else match r with
              | [] => false
              | d :: r => utf8Four a b c d && validUtf8 r

namespace Dict

mutual

def utf8 : Dict → Bool
  | .str s => validUtf8 s
  | .array xs => utf8All xs
  | .object kvs => utf8Members kvs
  | _ => true

def utf8All : List Dict → Bool
  | [] => true
  | d :: ds => d.utf8 && utf8All ds

def utf8Members : List (Str × Dict) → Bool
  | [] => true
  | (k, d) :: kvs => validUtf8 k && d.utf8 && utf8Members kvs

end

def finite (bits : UInt64) : Bool := (bits >>> 52) &&& 0x7FF != 0x7FF

mutual

def plain : Dict → Bool
  | .float bits => finite bits
  | .blob _ => false
  | .array xs => plainAll xs
  | .object kvs => plainMembers kvs
  | _ => true

def plainAll : List Dict → Bool
  | [] => true
  | d :: ds => d.plain && plainAll ds

def plainMembers : List (Str × Dict) → Bool
  | [] => true
  | (_, d) :: kvs => d.plain && plainMembers kvs

end

@[simp] theorem size_strings (xs : List Str) : (strings xs).size = xs.length := by
  simp [strings, size]

theorem index_strings_eq (xs : List Str) (i : Nat) :
    (strings xs).index i = .ok ((xs[i]?.map .str).getD .null) := by
  simp [strings, index, List.getD_eq_getElem?_getD]

theorem index_strings {xs : List Str} {i : Nat} (h : i < xs.length) :
    (strings xs).index i = .ok (.str xs[i]) := by
  simp [strings, index, h]

theorem index_strings_str {xs : List Str} {i : Nat} {x : Str}
    (h : (strings xs).index i = .ok (.str x)) :
    xs[i]? = some x := by
  rcases Nat.lt_or_ge i xs.length with hi | hi
  · rw [index_strings hi] at h
    obtain rfl : xs[i] = x := str.inj (Except.ok.inj h)
    exact List.getElem?_eq_getElem hi
  · simp [strings, index, hi] at h

theorem strings_inj {xs ys : List Str} (h : strings xs = strings ys) : xs = ys :=
  List.map_injective_iff.mpr (fun _ _ => str.inj) (array.inj h)

theorem array_strings {xs : List Dict} (h : ∀ d ∈ xs, ∃ s, d = .str s) :
    ∃ ss, array xs = strings ss := by
  induction xs with
  | nil => exact ⟨[], rfl⟩
  | cons d ds ih =>
    obtain ⟨ss, hss⟩ := ih fun d hd => h d (List.mem_cons_of_mem _ hd)
    obtain ⟨s, rfl⟩ := h d List.mem_cons_self
    refine ⟨s :: ss, ?_⟩
    rw [array.inj hss]
    rfl

end Dict

structure Frame where
  op : Str
  data : Dict

end Ac
