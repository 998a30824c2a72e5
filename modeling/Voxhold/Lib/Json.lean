/-
# Voxhold.Lib.Json — a JSON writer that can be read back

The text of a JSON value determines the value (`write_injective`): two texts that start with a value
each, and go on with something no number can run into, start with the same value and go on alike
(`write_append`). Strings are escaped as `encoding/json` of Go escapes them, for use inside HTML.
-/

import Mathlib.Data.List.Basic

namespace Voxhold.Lib

open List Nat

variable {c : Char} {r r' : List Char}

inductive Json where
  | null
  | bool (b : Bool)
  | num (n : Int)
  | str (s : List Char)
  | arr (items : List Json)
  | obj (fields : List (List Char × Json))

namespace Json

/-! ## Writing -/

/-- The characters that do not stand for themselves: the control characters, the quote and the
backslash, what HTML gives a meaning, and the two line separators of JavaScript. -/
def special : List Char :=
  (range 32).map Char.ofNat ++ ['"', '\\', '<', '>', '&', '\u2028', '\u2029']

/-- The ones that have an escape of one letter. -/
def letters : List (Char × Char) :=
  [('"', '"'), ('\\', '\\'), ('\x08', 'b'), ('\x0c', 'f'), ('\n', 'n'), ('\x0d', 'r'), ('\t', 't')]

def hex (n : Nat) : List Char :=
  [n / 4096, n / 256 % 16, n / 16 % 16, n % 16].map digitChar

def escape (c : Char) : List Char :=
  if c ∈ special then '\\' :: ((letters.lookup c).elim ('u' :: hex c.toNat) fun letter => [letter])
  else [c]

def quote (s : List Char) : List Char :=
  '"' :: (s.flatMap escape ++ ['"'])

def digits : Int → List Char
  | .ofNat n => Nat.toDigits 10 n
  | .negSucc n => '-' :: Nat.toDigits 10 (n + 1)

mutual

def write : Json → List Char
  | .null => ['n', 'u', 'l', 'l']
  | .bool true => ['t', 'r', 'u', 'e']
  | .bool false => ['f', 'a', 'l', 's', 'e']
  | .num n => digits n
  | .str s => quote s
  | .arr [] => ['[', ']']
  | .arr (item :: items) => '[' :: (write item ++ writeItems items)
  | .obj [] => ['{', '}']
  | .obj (field :: fields) => '{' :: (writeField field ++ writeFields fields)

def writeField : List Char × Json → List Char
  | (key, value) => quote key ++ ':' :: write value

def writeItems : List Json → List Char
  | [] => [']']
  | item :: items => ',' :: (write item ++ writeItems items)

def writeFields : List (List Char × Json) → List Char
  | [] => ['}']
  | field :: fields => ',' :: (writeField field ++ writeFields fields)

end

/-! ## Pieces that end by themselves -/

-- No escape is the beginning of another one: there are finitely many.
theorem eq_of_escape_append : ∀ c ∈ special, ∀ d ∈ special, escape c <+: escape d → c = d := by
  have hall : (special.all fun c => special.all fun d => escape c <+: escape d → c = d) = true := by
    decide +kernel
  simpa only [all_eq_true, decide_eq_true_eq] using hall

theorem escape_append {d : Char} (h : escape c ++ r = escape d ++ r') : c = d ∧ r = r' := by
  have hsame : c = d := by
    by_cases hc : c ∈ special
    · by_cases hd : d ∈ special
      · have hprefix : escape c <+: escape d ++ r' := h ▸ prefix_append _ _
        rcases prefix_or_prefix_of_prefix hprefix (prefix_append _ _) with hcd | hdc
        · exact eq_of_escape_append c hc d hd hcd
        · exact (eq_of_escape_append d hd c hc hdc).symm
      · rw [escape, escape, if_pos hc, if_neg hd] at h
        exact absurd ((cons_eq_cons.mp h).1 ▸ by decide) hd
    · by_cases hd : d ∈ special
      · rw [escape, escape, if_neg hc, if_pos hd] at h
        exact absurd ((cons_eq_cons.mp h).1 ▸ by decide) hc
      · rw [escape, escape, if_neg hc, if_neg hd] at h
        exact (cons_eq_cons.mp h).1
  subst hsame
  exact ⟨rfl, append_cancel_left h⟩

theorem escape_ne_quote : escape c ++ r ≠ '"' :: r' := by
  unfold escape
  split
  · simp
  next hc =>
    intro h
    exact hc ((cons_eq_cons.mp h).1 ▸ by decide)

theorem body_append {s t : List Char}
    (h : s.flatMap escape ++ '"' :: r = t.flatMap escape ++ '"' :: r') : s = t ∧ r = r' := by
  induction s generalizing t with
  | nil =>
    cases t with
    | nil => exact ⟨rfl, by simpa using h⟩
    | cons d t =>
      rw [flatMap_cons, append_assoc] at h
      exact absurd h.symm escape_ne_quote
  | cons c s ih =>
    rw [flatMap_cons, append_assoc] at h
    cases t with
    | nil => exact absurd h escape_ne_quote
    | cons d t =>
      rw [flatMap_cons, append_assoc] at h
      obtain ⟨rfl, hrest⟩ := escape_append h
      obtain ⟨rfl, hr⟩ := ih hrest
      exact ⟨rfl, hr⟩

theorem quote_append {s t : List Char} (h : quote s ++ r = quote t ++ r') : s = t ∧ r = r' := by
  refine body_append ?_
  simpa [quote] using h

/-! ## Numbers, which do not -/

/-- What follows a value: the end, or a character no number continues with. -/
def Stops (r : List Char) : Prop :=
  ∀ c ∈ r.head?, c.isDigit = false

theorem takeWhile_digits {ds : List Char} (hds : ∀ c ∈ ds, c.isDigit = true) (hr : Stops r) :
    (ds ++ r).takeWhile Char.isDigit = ds := by
  rw [takeWhile_append_of_pos hds]
  cases r with
  | nil => simp
  | cons c r => simp [hr c rfl]

theorem isDigit_of_toDigits {n : Nat} (hc : c ∈ Nat.toDigits 10 n) : c.isDigit = true :=
  isDigit_of_mem_toDigits (by decide) (by decide) hc

theorem toDigits_append {m n : Nat} (hr : Stops r) (hr' : Stops r')
    (h : Nat.toDigits 10 m ++ r = Nat.toDigits 10 n ++ r') : m = n ∧ r = r' := by
  have hsame : toDigits 10 m = toDigits 10 n := by
    rw [← takeWhile_digits (fun _ => isDigit_of_toDigits) hr, h,
      takeWhile_digits (fun _ => isDigit_of_toDigits) hr']
  constructor
  · rw [← ofDigitChars_toDigits (b := 10) (n := m) (by decide) (by decide), hsame,
      ofDigitChars_toDigits (by decide) (by decide)]
  · rw [hsame] at h
    exact append_cancel_left h

theorem exists_digits_cons (n : Int) : ∃ c r, digits n = c :: r ∧ (c.isDigit = true ∨ c = '-') := by
  cases n with
  | ofNat n =>
    obtain ⟨c, r, hcr⟩ := exists_cons_of_ne_nil (toDigits_ne_nil (n := n) (b := 10))
    exact ⟨c, r, hcr, .inl (isDigit_of_toDigits (hcr ▸ mem_cons_self))⟩
  | negSucc n => exact ⟨'-', _, rfl, .inr rfl⟩

theorem toDigits_ne_minus {n : Nat} : Nat.toDigits 10 n ++ r ≠ '-' :: r' := by
  obtain ⟨c, ds, hcr⟩ := exists_cons_of_ne_nil (toDigits_ne_nil (n := n) (b := 10))
  have hdigit : c.isDigit = true := isDigit_of_toDigits (hcr ▸ mem_cons_self)
  rw [hcr]
  intro h
  rw [(cons_eq_cons.mp h).1] at hdigit
  cases hdigit

theorem digits_append {m n : Int} (hr : Stops r) (hr' : Stops r')
    (h : digits m ++ r = digits n ++ r') : m = n ∧ r = r' := by
  match m, n with
  | .ofNat m, .ofNat n =>
    obtain ⟨rfl, hrest⟩ := toDigits_append hr hr' h
    exact ⟨rfl, hrest⟩
  | .ofNat m, .negSucc n => exact absurd h toDigits_ne_minus
  | .negSucc m, .ofNat n => exact absurd h.symm toDigits_ne_minus
  | .negSucc m, .negSucc n =>
    obtain ⟨hmn, hrest⟩ := toDigits_append hr hr' (cons_eq_cons.mp h).2
    exact ⟨by rw [succ.inj hmn], hrest⟩

/-! ## Values -/

/-- Which kind of value a character starts. -/
def lead (c : Char) : Nat :=
  if c.isDigit ∨ c = '-' then 3
  else if c = 'n' then 0
  else if c = 't' then 1
  else if c = 'f' then 2
  else if c = '"' then 4
  else if c = '[' then 5
  else if c = '{' then 6
  else 7

def kind : Json → Nat
  | .null => 0
  | .bool true => 1
  | .bool false => 2
  | .num _ => 3
  | .str _ => 4
  | .arr _ => 5
  | .obj _ => 6

theorem exists_write_cons (j : Json) : ∃ c r, write j = c :: r ∧ lead c = kind j := by
  cases j with
  | null | str s => exact ⟨_, _, rfl, rfl⟩
  | bool b => cases b <;> exact ⟨_, _, rfl, rfl⟩
  | num n =>
    obtain ⟨c, r, hcr, hc⟩ := exists_digits_cons n
    exact ⟨c, r, hcr, if_pos hc⟩
  | arr items => cases items <;> exact ⟨_, _, rfl, rfl⟩
  | obj fields => cases fields <;> exact ⟨_, _, rfl, rfl⟩

/-- Two values of one kind, a boolean with itself. -/
inductive Alike : Json → Json → Prop where
  | null : Alike .null .null
  | bool (b : Bool) : Alike (.bool b) (.bool b)
  | num (m n : Int) : Alike (.num m) (.num n)
  | str (s t : List Char) : Alike (.str s) (.str t)
  | arr (items items' : List Json) : Alike (.arr items) (.arr items')
  | obj (fields fields' : List (List Char × Json)) : Alike (.obj fields) (.obj fields')

theorem alike_of_kind_eq {j j' : Json} (h : kind j = kind j') : Alike j j' := by
  rcases j with _ | (_ | _) | _ | _ | _ | _ <;> rcases j' with _ | (_ | _) | _ | _ | _ | _ <;>
    first | constructor | cases h

theorem alike_of_write_append {j j' : Json} (h : write j ++ r = write j' ++ r') : Alike j j' := by
  obtain ⟨c, w, hcw, hc⟩ := exists_write_cons j
  obtain ⟨c', w', hcw', hc'⟩ := exists_write_cons j'
  rw [hcw, hcw'] at h
  exact alike_of_kind_eq (by rw [← hc, ← hc', (cons_eq_cons.mp h).1])

theorem write_append_ne {j : Json} (hc : lead c = 7) : write j ++ r ≠ c :: r' := by
  obtain ⟨d, w, hdw, hd⟩ := exists_write_cons j
  rw [hdw]
  intro h
  rw [(cons_eq_cons.mp h).1, hc] at hd
  rcases j with _ | (_ | _) | _ | _ | _ | _ <;> cases hd

theorem stops_cons (hc : c.isDigit = false) (r : List Char) : Stops (c :: r) := by
  intro d hd
  rwa [← Option.some.inj hd]

theorem stops_writeItems (items : List Json) (r : List Char) : Stops (writeItems items ++ r) := by
  cases items <;> exact stops_cons rfl _

theorem stops_writeFields (fields : List (List Char × Json)) (r : List Char) :
    Stops (writeFields fields ++ r) := by
  cases fields <;> exact stops_cons rfl _

/-- The items of a list, as they stand after its opening bracket. -/
def writeList : List Json → List Char
  | [] => [']']
  | item :: items => write item ++ writeItems items

def writeObject : List (List Char × Json) → List Char
  | [] => ['}']
  | field :: fields => writeField field ++ writeFields fields

theorem write_arr (items : List Json) : write (.arr items) = '[' :: writeList items := by
  cases items <;> rfl

theorem write_obj (fields : List (List Char × Json)) :
    write (.obj fields) = '{' :: writeObject fields := by
  cases fields <;> rfl

theorem writeField_append_ne {field : List Char × Json} : writeField field ++ r ≠ '}' :: r' := by
  cases field
  simp [writeField, quote]

theorem writeItems_eq_of_writeList {items items' : List Json}
    (h : writeList items ++ r = writeList items' ++ r') :
    writeItems items ++ r = writeItems items' ++ r' := by
  cases items with
  | nil =>
    cases items' with
    | nil => exact h
    | cons item' items' =>
      rw [writeList, writeList, List.append_assoc] at h
      exact absurd h.symm (write_append_ne rfl)
  | cons item items =>
    cases items' with
    | nil => exact absurd ((List.append_assoc ..).symm.trans h) (write_append_ne rfl)
    | cons item' items' => exact congrArg (',' :: ·) h

theorem writeFields_eq_of_writeObject {fields fields' : List (List Char × Json)}
    (h : writeObject fields ++ r = writeObject fields' ++ r') :
    writeFields fields ++ r = writeFields fields' ++ r' := by
  cases fields with
  | nil =>
    cases fields' with
    | nil => exact h
    | cons field' fields' =>
      rw [writeObject, writeObject, List.append_assoc] at h
      exact absurd h.symm writeField_append_ne
  | cons field fields =>
    cases fields' with
    | nil => exact absurd ((List.append_assoc ..).symm.trans h) writeField_append_ne
    | cons field' fields' => exact congrArg (',' :: ·) h

-- Injectivity has to be carried with a rest on both sides: a text is read from the left, and where
-- one value ends is known only from the value itself, or for a number from what follows.
mutual

theorem write_append : (j : Json) → ∀ (j' : Json) {r r' : List Char}, Stops r → Stops r' →
    write j ++ r = write j' ++ r' → j = j' ∧ r = r'
  | .null => fun j' r r' _ _ h => by
    cases alike_of_write_append h
    exact ⟨rfl, by simpa [write] using h⟩
  | .bool b => fun j' r r' _ _ h => by
    cases alike_of_write_append h
    cases b <;> exact ⟨rfl, by simpa [write] using h⟩
  | .num m => fun j' r r' hr hr' h => by
    cases alike_of_write_append h with
    | num _ n =>
      obtain ⟨rfl, hrest⟩ := digits_append hr hr' (by simpa [write] using h)
      exact ⟨rfl, hrest⟩
  | .str s => fun j' r r' _ _ h => by
    cases alike_of_write_append h with
    | str _ t =>
      obtain ⟨rfl, hrest⟩ := quote_append (by simpa [write] using h)
      exact ⟨rfl, hrest⟩
  | .arr items => fun j' r r' _ _ h => by
    cases alike_of_write_append h with
    | arr _ items' =>
      rw [write_arr, write_arr] at h
      obtain ⟨rfl, hrest⟩ :=
        writeItems_append items items' (writeItems_eq_of_writeList (cons_eq_cons.mp h).2)
      exact ⟨rfl, hrest⟩
  | .obj fields => fun j' r r' _ _ h => by
    cases alike_of_write_append h with
    | obj _ fields' =>
      rw [write_obj, write_obj] at h
      obtain ⟨rfl, hrest⟩ :=
        writeFields_append fields fields' (writeFields_eq_of_writeObject (cons_eq_cons.mp h).2)
      exact ⟨rfl, hrest⟩

theorem writeItems_append : (items : List Json) → ∀ (items' : List Json) {r r' : List Char},
    writeItems items ++ r = writeItems items' ++ r' → items = items' ∧ r = r'
  | [] => fun items' r r' h => by
    cases items' with
    | nil => exact ⟨rfl, by simpa [writeItems] using h⟩
    | cons item' items' => simp [writeItems] at h
  | item :: items => fun items' r r' h => by
    cases items' with
    | nil => simp [writeItems] at h
    | cons item' items' =>
      simp only [writeItems, List.cons_append, List.append_assoc, List.cons.injEq, true_and] at h
      obtain ⟨rfl, htail⟩ := write_append item item' (stops_writeItems _ _) (stops_writeItems _ _) h
      obtain ⟨rfl, hrest⟩ := writeItems_append items items' htail
      exact ⟨rfl, hrest⟩

theorem writeField_append : (field : List Char × Json) → ∀ (field' : List Char × Json)
    {r r' : List Char}, Stops r → Stops r' → writeField field ++ r = writeField field' ++ r' →
    field = field' ∧ r = r'
  | (key, value) => fun (key', value') r r' hr hr' h => by
    simp only [writeField, List.append_assoc, List.cons_append] at h
    obtain ⟨rfl, htail⟩ := quote_append h
    obtain ⟨rfl, hrest⟩ := write_append value value' hr hr' (cons_eq_cons.mp htail).2
    exact ⟨rfl, hrest⟩

theorem writeFields_append : (fields : List (List Char × Json)) →
    ∀ (fields' : List (List Char × Json)) {r r' : List Char},
    writeFields fields ++ r = writeFields fields' ++ r' → fields = fields' ∧ r = r'
  | [] => fun fields' r r' h => by
    cases fields' with
    | nil => exact ⟨rfl, by simpa [writeFields] using h⟩
    | cons field' fields' => simp [writeFields] at h
  | field :: fields => fun fields' r r' h => by
    cases fields' with
    | nil => simp [writeFields] at h
    | cons field' fields' =>
      simp only [writeFields, List.cons_append, List.append_assoc, List.cons.injEq, true_and] at h
      obtain ⟨rfl, htail⟩ := writeField_append field field' (stops_writeFields _ _)
        (stops_writeFields _ _) h
      obtain ⟨rfl, hrest⟩ := writeFields_append fields fields' htail
      exact ⟨rfl, hrest⟩

end

theorem write_injective : Function.Injective write := by
  intro j j' h
  have hstops : Stops [] := fun _ hc => nomatch hc
  exact (write_append j j' hstops hstops (congrArg (· ++ []) h)).1

def marshal (j : Json) : String :=
  String.ofList (write j)

theorem marshal_injective : Function.Injective marshal := fun _ _ h =>
  write_injective (String.ofList_injective h)

end Json

end Voxhold.Lib
