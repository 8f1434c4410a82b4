import Mathlib.Data.List.Basic

/-!
# Access Control

Windows guards an object by a security descriptor: a list of entries, each of which allows or denies
some rights to an account or a group, and a mandatory label. Who asks for access is a token: the
accounts and groups it stands for, and its integrity level. The entries are gone through in order
with the rights that are still open; an entry that allows closes some of them, and one that denies a
right that is still open ends the check. Below the level of the label a token is not given what
writes.

A descriptor has a text form, in which an entry is written in parentheses and has six fields. Here
is the part of it in which entries have no flags and name no type of object, and the label is one
against writing up.

## Main definitions

* `check`, `Descriptor.Grants`: who is given access.
* `parse`: the descriptor a text stands for.

## Main results

* `check_iff`: **a right is decided by the first entry that speaks of it.**
* `check_iff_exists`: a list that only allows.
* `scan_entry`: an entry is read up to its closing parenthesis.
-/

namespace AccessControl

/-! ### The check -/

/-- Rights, one a bit: the rights of the kind of object below, then the standard rights, and the
generic ones on top. -/
abbrev Mask := BitVec 32

/-- An integrity level, by its number: a label is compared with the level of a token, and nothing
else is done with it. -/
abbrev Level := ℕ

/-- An entry of a list: it allows or denies the rights in its mask to an account. The order of
entries matters. -/
structure Ace (Sid : Type) where
  allows : Bool
  mask : Mask
  sid : Sid
  deriving DecidableEq, Repr

/-- The rights that reading, writing, executing and everything stand for, for one type of object. -/
structure Mapping where
  read : Mask
  write : Mask
  execute : Mask
  all : Mask

/-- What guards an object: a list of entries that is gone through in order, and a label below which
nothing may be written. -/
structure Descriptor (Sid : Type) where
  dacl : List (Ace Sid)
  label : Level
  deriving DecidableEq, Repr

/-- Who asks for access: the accounts it belongs to, and its integrity level. -/
structure Token (Sid : Type) where
  sids : List Sid
  level : Level

-- the generic rights, which stand for others

/-- The right to read, to be replaced by the rights of the kind of object. -/
def GENERIC_READ : Mask := 0x80000000#32

/-- The right to write, to be replaced by the rights of the kind of object. -/
def GENERIC_WRITE : Mask := 0x40000000#32

/-- The right to execute, to be replaced by the rights of the kind of object. -/
def GENERIC_EXECUTE : Mask := 0x20000000#32

/-- All rights, to be replaced by those the kind of object has. -/
def GENERIC_ALL : Mask := 0x10000000#32

section Check

variable {Sid : Type} [DecidableEq Sid] {sids : List Sid} {dacl : List (Ace Sid)} {rest : Mask}

/-- Go through the entries with the rights that are still open: an entry that allows closes the
rights it is about, and one that denies an open right ends the check. -/
def check (sids : List Sid) : List (Ace Sid) → Mask → Bool
  | [], rest => rest == 0
  | ace :: dacl, rest =>
      if ace.sid ∈ sids then
        if ace.allows then check sids dacl (rest &&& ~~~ace.mask)
        else rest &&& ace.mask == 0 && check sids dacl rest
      else check sids dacl rest

/-- What the first entry that speaks of a right says: of two entries about the same right the first
one counts. -/
def verdict (sids : List Sid) (i : ℕ) : List (Ace Sid) → Option Bool
  | [] => none
  | ace :: dacl =>
      if ace.sid ∈ sids ∧ ace.mask.getLsbD i then some ace.allows else verdict sids i dacl

/-- No right is left to be granted exactly if every bit was granted; masks are compared bit by bit
from here on. -/
theorem eq_zero_iff : rest = 0 ↔ ∀ i, rest.getLsbD i = false := by
  constructor
  · rintro rfl i
    exact BitVec.getLsbD_zero
  · intro h
    refine BitVec.eq_of_getLsbD_eq fun i _ => ?_
    rw [h i]
    exact BitVec.getLsbD_zero.symm

/-- **A right is decided by the first entry that speaks of it**: access is given exactly if that
entry allows, for every right that is asked for. -/
theorem check_iff :
    check sids dacl rest = true ↔ ∀ i, rest.getLsbD i = true → verdict sids i dacl = some true := by
  induction dacl generalizing rest with
  | nil =>
    rw [check, beq_iff_eq, eq_zero_iff]
    simp [verdict]
  | cons ace dacl ih =>
    simp only [check, verdict]
    by_cases hsid : ace.sid ∈ sids
    · rw [if_pos hsid]
      cases hallows : ace.allows with
      | true =>
        rw [if_pos rfl, ih]
        refine forall_congr' fun i => ?_
        rw [BitVec.getLsbD_and, BitVec.getLsbD_not]
        cases hmask : ace.mask.getLsbD i with
        | true => simp [hsid]
        | false =>
          -- bits above the width are not set anyway
          by_cases hi : i < 32
          · simp [hi]
          · simp [BitVec.getLsbD_of_ge rest i (by omega)]
      | false =>
        rw [if_neg Bool.false_ne_true, Bool.and_eq_true, beq_iff_eq, eq_zero_iff, ih, ← forall_and]
        refine forall_congr' fun i => ?_
        rw [BitVec.getLsbD_and]
        cases hrest : rest.getLsbD i with
        | true => cases ace.mask.getLsbD i <;> simp [hsid]
        | false => simp
    · rw [if_neg hsid, ih]
      simp [hsid]

/-- Where every entry allows, what is asked for must be covered by the entries that apply. -/
theorem check_iff_of_allows (h : ∀ ace ∈ dacl, ace.allows = true) :
    check sids dacl rest = true ↔
      ∀ i, rest.getLsbD i = true → ∃ ace ∈ dacl, ace.sid ∈ sids ∧ ace.mask.getLsbD i = true := by
  rw [check_iff]
  refine forall_congr' fun i => imp_congr_right fun _ => ?_
  induction dacl with
  | nil => simp [verdict]
  | cons ace dacl ih =>
    rw [verdict, List.exists_mem_cons_iff, ← ih fun ace hmem => h ace (List.mem_cons_of_mem _ hmem)]
    split_ifs with happlies
    · simp [happlies, h ace List.mem_cons_self]
    · simp [happlies]

/-- Where every entry allows all that is asked for, one that applies is enough. -/
theorem check_iff_exists (hallows : ∀ ace ∈ dacl, ace.allows = true)
    (hcovers : ∀ ace ∈ dacl, rest &&& ace.mask = rest) (hrest : rest ≠ 0) :
    check sids dacl rest = true ↔ ∃ ace ∈ dacl, ace.sid ∈ sids := by
  rw [check_iff_of_allows hallows]
  constructor
  · intro h
    obtain ⟨i, hi⟩ : ∃ i, rest.getLsbD i ≠ false := by
      rw [← not_forall, ← eq_zero_iff]
      exact hrest
    obtain ⟨ace, hace, hsid, -⟩ := h i (Bool.ne_false_iff.1 hi)
    exact ⟨ace, hace, hsid⟩
  · rintro ⟨ace, hace, hsid⟩ i hi
    rw [← hcovers ace hace, BitVec.getLsbD_and, Bool.and_eq_true] at hi
    exact ⟨ace, hace, hsid, hi.2⟩

/-- The generic rights a mask asks for, as the rights they stand for on objects of this kind. The
other rights of the mask stay as they are. -/
def Mapping.specific (mapping : Mapping) (asked : Mask) : Mask :=
  (asked &&& 0x0fffffff#32) |||
    (if asked &&& GENERIC_READ = 0 then 0 else mapping.read) |||
    (if asked &&& GENERIC_WRITE = 0 then 0 else mapping.write) |||
    (if asked &&& GENERIC_EXECUTE = 0 then 0 else mapping.execute) |||
    (if asked &&& GENERIC_ALL = 0 then 0 else mapping.all)

/-- A token below the level of the label is given nothing but what reads or executes. -/
def Descriptor.Permits (d : Descriptor Sid) (mapping : Mapping) (level : Level) (rights : Mask) :
    Prop :=
  d.label ≤ level ∨ rights &&& ~~~(mapping.read ||| mapping.execute) = 0

/-- The access that is asked for is given: the label permits it to the level of the token, and the
list grants every right of it. -/
def Descriptor.Grants (d : Descriptor Sid) (mapping : Mapping) (token : Token Sid)
    (asked : Mask) : Prop :=
  d.Permits mapping token.level (mapping.specific asked) ∧
    check token.sids d.dacl (mapping.specific asked) = true

instance (d : Descriptor Sid) (mapping : Mapping) (token : Token Sid) (asked : Mask) :
    Decidable (d.Grants mapping token asked) :=
  inferInstanceAs (Decidable ((_ ∨ _) ∧ _))

end Check

/-! ### Texts -/

/-- Accounts and groups: some by the two letters they have in a text, the others by their
identifier. -/
inductive Account
  | localSystem
  | administrators
  | authenticatedUsers
  | sid (text : List Char)
  deriving DecidableEq, Repr

/-- The bodies of the entries a text starts with, and what is behind them. In an entry, `body` is
what has been read of it. -/
def scan : Option (List Char) → List Char → Option (List (List Char) × List Char)
  | none, [] => some ([], [])
  | some _, [] => none
  | none, c :: text => if c = '(' then scan (some []) text else some ([], c :: text)
  | some body, c :: text =>
      if c = ')' then (scan none text).map fun x => (body :: x.1, x.2)
      else scan (some (body ++ [c])) text

/-- The rights of files and the generic ones, by their two letters in a text. -/
def right : Char → Char → Option Mask
  | 'F', 'A' => some 0x001f01ff#32
  | 'F', 'R' => some 0x00120089#32
  | 'F', 'W' => some 0x00120116#32
  | 'F', 'X' => some 0x001200a0#32
  | 'G', 'A' => some GENERIC_ALL
  | 'G', 'R' => some GENERIC_READ
  | 'G', 'W' => some GENERIC_WRITE
  | 'G', 'X' => some GENERIC_EXECUTE
  | _, _ => none

/-- Rights one behind the other, two letters each; a text of odd length is no list of rights. -/
def rights : List Char → Option Mask
  | [] => some 0
  | [_] => none
  | a :: b :: text => (right a b).bind fun mask => (rights text).map fun masks => mask ||| masks

/-- Whom an entry is about: one of the accounts with letters of their own, or an identifier that is
written out. -/
def account : List Char → Option Account
  | ['S', 'Y'] => some .localSystem
  | ['B', 'A'] => some .administrators
  | ['A', 'U'] => some .authenticatedUsers
  | 'S' :: '-' :: text => some (.sid ('S' :: '-' :: text))
  | _ => none

/-- The type of an entry that allows or denies; other types of entries are not read. -/
def allows : List Char → Option Bool
  | ['A'] => some true
  | ['D'] => some false
  | _ => none

/-- The level of a label, by its two letters: low, medium, high and system. -/
def level : List Char → Option Level
  | ['L', 'W'] => some 0x1000
  | ['M', 'E'] => some 0x2000
  | ['H', 'I'] => some 0x3000
  | ['S', 'I'] => some 0x4000
  | _ => none

/-- An entry that allows or denies: six fields, of which the flags and the two about objects are
empty. -/
def parseAce (body : List Char) : Option (Ace Account) :=
  match body.splitOn ';' with
  | [type, [], mask, [], [], trustee] =>
      (allows type).bind fun type => (rights mask).bind fun mask =>
        (account trustee).map fun trustee => ⟨type, mask, trustee⟩
  | _ => none

/-- A label against writing up: the one kind of entry in a system list that is read here. -/
def parseLabel (body : List Char) : Option Level :=
  match body.splitOn ';' with
  | [['M', 'L'], [], ['N', 'W'], [], [], trustee] => level trustee
  | _ => none

/-- The entries of a part of a text, which starts with a letter and a colon, and what is behind
them. -/
def part (letter : Char) : List Char → Option (List (List Char) × List Char)
  | c :: ':' :: text => if c = letter then scan none text else none
  | _ => none

/-- The descriptor a text stands for: a list of entries and behind it a list with one label. A text
that has anything else is not read. -/
def parse (text : List Char) : Option (Descriptor Account) :=
  (part 'D' text).bind fun dacl => (part 'S' dacl.2).bind fun sacl =>
    match sacl with
    | ([label], []) => (dacl.1.mapM parseAce).bind fun aces =>
        (parseLabel label).map fun label => ⟨aces, label⟩
    | _ => none

section Text

variable {text : List Char}

/-- The scanner collects an entry up to its closing bracket, which no entry contains. -/
theorem scan_body {body read : List Char} (h : ')' ∉ body) :
    scan (some read) (body ++ ')' :: text) =
      (scan none text).map fun x => ((read ++ body) :: x.1, x.2) := by
  induction body generalizing read with
  | nil =>
    rw [List.append_nil]
    exact if_pos rfl
  | cons c body ih =>
    rw [List.mem_cons, not_or] at h
    obtain ⟨hne, hbody⟩ := h
    rw [List.cons_append, scan, if_neg (Ne.symm hne), ih hbody, List.append_assoc,
      List.singleton_append]

/-- An entry is read up to its closing parenthesis. -/
theorem scan_entry {body : List Char} (h : ')' ∉ body) :
    scan none ('(' :: (body ++ ')' :: text)) =
      (scan none text).map fun x => (body :: x.1, x.2) := by
  rw [scan, if_pos rfl, scan_body h]
  rfl

end Text

end AccessControl
