/-
The payload of a style determines its normal source, its value pairs and its flag, and the
fingerprint determines the digest that it writes.

Each part of a payload tells where it ends (`SelfDelimiting`), so a payload is taken apart from the
front: characters, then strings, then arrays.
-/
import ScopedCss.Fingerprint.ClassName

namespace ScopedCss

/-- Values are written so that the text shows where the first one ends. -/
def SelfDelimiting {α : Type} (write : α → Text) : Prop :=
  ∀ ⦃a b : α⦄ ⦃s t : Text⦄, write a ++ s = write b ++ t → a = b ∧ s = t

namespace Hex

theorem digitValue?_hexDigit (n : Nat) : digitValue? (Text.hexDigit n) = some (n % 16) := by
  have hall : ∀ d : Fin 16, digitValue? (Nat.digitChar d) = some d.val := by decide
  exact hall ⟨n % 16, Nat.mod_lt _ (by decide)⟩

theorem mod_eq_of_hexDigit_eq {m n : Nat} (h : Text.hexDigit m = Text.hexDigit n) :
    m % 16 = n % 16 := by
  have hv := congrArg digitValue? h
  rwa [digitValue?_hexDigit, digitValue?_hexDigit, Option.some.injEq] at hv

/-- Two digits determine their byte. -/
theorem encode_inj {a b : List UInt8} (h : encode a = encode b) : a = b := by
  induction a generalizing b with
  | nil =>
    cases b with
    | nil => rfl
    | cons y b => simp [encode] at h
  | cons x a ih =>
    cases b with
    | nil => simp [encode] at h
    | cons y b =>
      simp only [encode, List.flatMap_cons, List.cons_append, List.nil_append,
        List.cons.injEq] at h
      obtain ⟨hhigh, hlow, hrest⟩ := h
      have hhigh := mod_eq_of_hexDigit_eq hhigh
      have hlow := mod_eq_of_hexDigit_eq hlow
      have hx := x.toNat_lt
      have hy := y.toNat_lt
      have hxy : x = y := UInt8.toNat_inj.1 (by omega)
      rw [hxy, ih hrest]

end Hex

namespace Fingerprint

theorem utf8_inj {s t : Text} (h : utf8 s = utf8 t) : s = t := by
  have hdata := Array.toList_inj.1 h
  exact String.ofList_inj.1 (String.toByteArray_inj.1 (ByteArray.ext hdata))

/-- The first character inside a JSON string, and what comes after it. -/
def unescape? : Text → Option (Char × Text)
  | '\\' :: 'n' :: t => some ('\n', t)
  | '\\' :: 'r' :: t => some ('\r', t)
  | '\\' :: 't' :: t => some ('\t', t)
  | '\\' :: 'b' :: t => some ('\x08', t)
  | '\\' :: 'f' :: t => some ('\x0c', t)
  | '\\' :: 'u' :: _ :: _ :: a :: b :: t => do
    let high ← Hex.digitValue? a
    let low ← Hex.digitValue? b
    return (Char.ofNat (16 * high + low), t)
  | '\\' :: c :: t => some (c, t)
  | c :: t => some (c, t)
  | [] => none

theorem unescape?_cons {c : Char} (hc : c ≠ '\\') (t : Text) :
    unescape? (c :: t) = some (c, t) := by
  unfold unescape?
  split <;> simp_all only [List.cons.injEq, ne_eq, false_and, reduceCtorEq]

theorem unescape?_escape (c : Char) (t : Text) : unescape? (escape c ++ t) = some (c, t) := by
  unfold escape
  split
  · rename_i h; subst h; rfl
  split
  · rename_i h; subst h; rfl
  split
  · rename_i h; subst h; rfl
  split
  · rename_i h; subst h; rfl
  split
  · rename_i h; subst h; rfl
  split
  · rename_i h; subst h; rfl
  split
  · rename_i h; subst h; rfl
  split
  · rename_i hlt
    have hcode : 16 * (c.toNat / 16 % 16) + c.toNat % 16 = c.toNat := by omega
    simp [unescape?, Hex.digitValue?_hexDigit, hcode, Char.ofNat_toNat]
  · rename_i hslash _ _ _ _ _ _
    exact unescape?_cons hslash t

theorem escape_selfDelimiting : SelfDelimiting escape := by
  intro c d s t h
  have hread := congrArg unescape? h
  rw [unescape?_escape, unescape?_escape] at hread
  simpa using hread

/-- No escape looks like the end of a string. -/
theorem escape_append_ne_quote (c : Char) (s t : Text) : escape c ++ s ≠ '"' :: t := by
  intro h
  have hread := congrArg unescape? h
  rw [unescape?_escape, unescape?_cons (by decide)] at hread
  obtain ⟨rfl, -⟩ : c = '"' ∧ s = t := by simpa using hread
  simp [escape] at h

theorem jsonString_selfDelimiting : SelfDelimiting jsonString := by
  intro a b s t h
  simp only [jsonString, List.cons_append, List.append_assoc, List.cons.injEq, true_and,
    List.nil_append] at h
  induction a generalizing b with
  | nil =>
    cases b with
    | nil => simpa using h
    | cons d b =>
      simp only [List.flatMap_nil, List.nil_append, List.flatMap_cons, List.append_assoc] at h
      exact absurd h.symm (escape_append_ne_quote d _ _)
  | cons c a ih =>
    cases b with
    | nil =>
      simp only [List.flatMap_nil, List.nil_append, List.flatMap_cons, List.append_assoc] at h
      exact absurd h (escape_append_ne_quote c _ _)
    | cons d b =>
      simp only [List.flatMap_cons, List.append_assoc] at h
      obtain ⟨rfl, hrest⟩ := escape_selfDelimiting h
      obtain ⟨rfl, rfl⟩ := ih hrest
      exact ⟨rfl, rfl⟩

theorem jsonArray_nil : jsonArray [] = ['[', ']'] := rfl

/-- The elements of an array behind its opening bracket, up to and with the closing one. -/
theorem jsonArray_cons (x : Text) (xs : List Text) :
    jsonArray (x :: xs) =
      '[' :: x ++ (xs.flatMap fun y => ", ".toList ++ y) ++ [']'] := by
  have hjoin : ∀ (x : Text) (xs : List Text),
      Text.join ", ".toList (x :: xs) = x ++ xs.flatMap fun y => ", ".toList ++ y := by
    intro x xs
    induction xs generalizing x with
    | nil => simp [Text.join, List.intercalate]
    | cons y xs ih =>
      rw [List.flatMap_cons, List.append_assoc, ← ih y]
      simp only [Text.join, List.intercalate_cons_cons, List.append_assoc]
  simp only [jsonArray, hjoin, List.cons_append]

section Arrays

variable {α : Type} {write : α → Text}

/-- Elements with a comma before each, up to the closing bracket. -/
theorem elements_selfDelimiting (hw : SelfDelimiting write) {as bs : List α} {s t : Text}
    (h : (as.map write).flatMap (fun y => ", ".toList ++ y) ++ ']' :: s =
      (bs.map write).flatMap (fun y => ", ".toList ++ y) ++ ']' :: t) : as = bs ∧ s = t := by
  induction as generalizing bs with
  | nil =>
    cases bs with
    | nil => simpa using h
    | cons b bs => simp at h
  | cons a as ih =>
    cases bs with
    | nil => simp at h
    | cons b bs =>
      simp only [List.map_cons, List.flatMap_cons, List.append_assoc, List.append_cancel_left_eq]
        at h
      obtain ⟨rfl, hrest⟩ := hw h
      obtain ⟨rfl, rfl⟩ := ih hrest
      exact ⟨rfl, rfl⟩

/-- An array shows where it ends if its elements do and none looks like its end. -/
theorem jsonArray_selfDelimiting (hw : SelfDelimiting write)
    (hne : ∀ a s t, write a ++ s ≠ ']' :: t) {as bs : List α} {s t : Text}
    (h : jsonArray (as.map write) ++ s = jsonArray (bs.map write) ++ t) : as = bs ∧ s = t := by
  cases as with
  | nil =>
    cases bs with
    | nil => exact ⟨rfl, List.append_cancel_left h⟩
    | cons b bs =>
      simp only [List.map_nil, List.map_cons, jsonArray_nil, jsonArray_cons, List.cons_append,
        List.append_assoc, List.cons.injEq, true_and] at h
      exact absurd h.symm (hne b _ _)
  | cons a as =>
    cases bs with
    | nil =>
      simp only [List.map_nil, List.map_cons, jsonArray_nil, jsonArray_cons, List.cons_append,
        List.append_assoc, List.cons.injEq, true_and] at h
      exact absurd h (hne a _ _)
    | cons b bs =>
      simp only [List.map_cons, jsonArray_cons, List.cons_append, List.append_assoc,
        List.cons.injEq, true_and, List.nil_append] at h
      obtain ⟨rfl, hrest⟩ := hw h
      obtain ⟨rfl, rfl⟩ := elements_selfDelimiting hw hrest
      exact ⟨rfl, rfl⟩

end Arrays

/-- A name or position and its text, as they stand in a payload. -/
def jsonPair (p : Text × Text) : Text := jsonArray [jsonString p.1, jsonString p.2]

theorem jsonPair_selfDelimiting : SelfDelimiting jsonPair := by
  rintro ⟨k, v⟩ ⟨l, w⟩ s t h
  have harray : jsonArray ([k, v].map jsonString) ++ s = jsonArray ([l, w].map jsonString) ++ t := h
  obtain ⟨hpair, hrest⟩ :=
    jsonArray_selfDelimiting jsonString_selfDelimiting (by simp [jsonString]) harray
  simp only [List.cons.injEq, and_true] at hpair
  exact ⟨Prod.ext hpair.1 hpair.2, hrest⟩

def jsonBool (b : Bool) : Text := if b then "true".toList else "false".toList

theorem jsonBool_selfDelimiting : SelfDelimiting jsonBool := by
  rintro (_ | _) (_ | _) s t h
  · exact ⟨rfl, List.append_cancel_left h⟩
  · simp [jsonBool] at h
  · simp [jsonBool] at h
  · exact ⟨rfl, List.append_cancel_left h⟩

theorem payload_eq (source : Text) (values : Values) (isGlobal : Bool) :
    payload source values isGlobal =
      "\x7b\x22global\x22: ".toList ++ (jsonBool isGlobal ++ (", \x22source\x22: ".toList ++
        (jsonString (normalize source) ++ (", \x22values\x22: ".toList ++
          (jsonArray ((valuePairs values).map jsonPair) ++ "\x7d".toList))))) := by
  unfold payload
  simp only [List.append_assoc]
  rfl

/-- A payload is made of the normal source, the value pairs and the flag, and of nothing else. -/
theorem payload_inj_iff {source source' : Text} {values values' : Values}
    {isGlobal isGlobal' : Bool} :
    payload source values isGlobal = payload source' values' isGlobal' ↔
      normalize source = normalize source' ∧ valuePairs values = valuePairs values' ∧
        isGlobal = isGlobal' := by
  constructor
  · intro h
    rw [payload_eq, payload_eq] at h
    obtain ⟨hflag, hrest⟩ := jsonBool_selfDelimiting (List.append_cancel_left h)
    obtain ⟨hsource, hrest⟩ := jsonString_selfDelimiting (List.append_cancel_left hrest)
    obtain ⟨hpairs, -⟩ := jsonArray_selfDelimiting jsonPair_selfDelimiting
      (by simp [jsonPair, jsonArray]) (List.append_cancel_left hrest)
    exact ⟨hsource, hpairs, hflag⟩
  · rintro ⟨hsource, hpairs, rfl⟩
    rw [payload_eq, payload_eq, hsource, hpairs]

end Fingerprint

end ScopedCss
