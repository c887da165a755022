import Libx.Agent.Jsonl
import Libx.Core.Run

/-!
# Libx.Line.History — the lines that were entered

history.c: the list and the file that it is kept in.
-/

namespace Libx.Line

open Libx.Agent (Bytes CStr cstr)
open Libx.Core (Run)
open List

structure HistoryEntry where
  text : CStr
  transient : Bool := false
  deriving DecidableEq

namespace HistoryEntry

/-- What an entry is after it was saved and loaded. -/
def reloaded (e : HistoryEntry) : Option CStr :=
  let text := cstr (e.text.bytes.filter (· ≠ 13))
  if e.transient then none else if text.bytes = [] ∨ text.bytes.head? = some 35 then none else some text

end HistoryEntry

/-- `struct history_s`; `elems` holds the entries in use, the oldest first. -/
structure History where
  len : ℕ
  elems : List HistoryEntry := []
  allowDuplicates : Bool := false

namespace History

open HistoryEntry (reloaded)

/-- The loop of `history_push`: behind an entry that it deletes, the next is passed over. -/
def removeDuplicates (entry : CStr) : List HistoryEntry → List HistoryEntry
  | [] => []
  | e :: es =>
    if e.text = entry then
      match es with
      | [] => []
      | e' :: es => e' :: removeDuplicates entry es
    else e :: removeDuplicates entry es

/-- `history_push` from the search for duplicates on. -/
def pushed (entry : CStr) (h : History) : History :=
  let elems := if h.allowDuplicates then h.elems else removeDuplicates entry h.elems
  let elems := if elems.length = h.len then elems.drop 1 else elems
  { h with elems := elems ++ [{ text := entry }] }

def push (entry : CStr) (h : History) : Option History := if h.len = 0 then none else some (h.pushed entry)

/-! ### The file -/

def toXdigit (c : UInt8) : UInt8 := if c ≤ 9 then c + 48 else if c ≤ 15 then c - 10 + 65 else 48

def fromXdigit (c : UInt8) : UInt8 :=
  if 48 ≤ c ∧ c ≤ 57 then c - 48
  else if 65 ≤ c ∧ c ≤ 70 then 10 + (c - 65)
  else if 97 ≤ c ∧ c ≤ 102 then 10 + (c - 97)
  else 0

/-- `ic_isxdigit`. -/
def isXdigit (c : UInt8) : Bool := 97 ≤ c && c ≤ 102 || 65 ≤ c && c ≤ 70 || 48 ≤ c && c ≤ 57

/-- What `history_write_entry` makes of a character. -/
def escape (c : UInt8) : Bytes :=
  if c = 92 then [92, 92]
  else if c = 10 then [92, 110]
  else if c = 13 then []
  else if c = 9 then [92, 116]
  else if c < 32 ∨ 126 < c ∨ c = 35 then [92, 120, toXdigit (c / 16), toXdigit (c % 16)]
  else [c]

/-- `history_write_entry`. -/
def writeEntry (entry : CStr) : Bytes :=
  let sbuf := entry.bytes.flatMap escape
  if sbuf = [] then [] else sbuf ++ [10]

def saveEntry (e : HistoryEntry) : Bytes := if e.transient then [] else writeEntry e.text

/-- `history_save`. -/
def save (h : History) : Bytes := h.elems.flatMap saveEntry

/-- `sbuf_append_char` in front of what is appended later. -/
def appendChar (c : UInt8) (r : Option (Bytes × Option Bytes)) : Option (Bytes × Option Bytes) :=
  r.map fun p => (if c = 0 then p.1 else c :: p.1, p.2)

/-- The loop of `history_read_entry`: what it leaves in `sbuf`, and the rest of the file unless it has met the end. -/
def readEntry : Bytes → Option (Bytes × Option Bytes)
  | [] => some ([], none)
  | c :: f =>
    if c = 10 then some ([], some f)
    else if c = 92 then
      match f with
      | [] => none
      | c :: f =>
        if c = 110 then appendChar 10 (readEntry f)
        else if c = 114 then readEntry f
        else if c = 116 then appendChar 9 (readEntry f)
        else if c = 92 then appendChar 92 (readEntry f)
        else if c = 120 then
          match f with
          | c1 :: c2 :: f =>
            if isXdigit c1 && isXdigit c2 then appendChar (fromXdigit c1 * 16 + fromXdigit c2) (readEntry f) else none
          | _ => none
        else none
    else appendChar c (readEntry f)

theorem length_readEntry {f : Bytes} {s f' : Bytes} (h : readEntry f = some (s, some f')) : f'.length < f.length := by
  fun_induction readEntry f generalizing s with grind [appendChar, Option.map_eq_some_iff]

/-- `history_load`. -/
def load (h : History) (f : Bytes) : History :=
  match _ : readEntry f with
  | none => h
  | some (sbuf, rest) =>
    match if sbuf = [] ∨ sbuf.head? = some 35 then some h else h.push (cstr sbuf), rest with
    | some h, some f' => h.load f'
    | some h, none => h
    | none, _ => h
termination_by f.length
decreasing_by exact length_readEntry ‹_›

variable {h : History} {c : UInt8} {bs f : Bytes}

/-! ### Characters -/

theorem xdigits : ∀ n < 256, (isXdigit (toXdigit (.ofNat n / 16)) && isXdigit (toXdigit (.ofNat n % 16))) = true ∧
    fromXdigit (toXdigit (.ofNat n / 16)) * 16 + fromXdigit (toXdigit (.ofNat n % 16)) = UInt8.ofNat n := by
  decide +kernel

theorem appendChar_of_ne {r : Option (Bytes × Option Bytes)} (hc : c ≠ 0) :
    appendChar c r = r.map fun p => (c :: p.1, p.2) := by
  simp only [appendChar, if_neg hc]

theorem readEntry_escape (hc : c ≠ 0) : readEntry (escape c ++ f) = if c = 13 then readEntry f else
    (readEntry f).map fun p => (c :: p.1, p.2) := by
  unfold escape
  by_cases hspecial : c = 92 ∨ c = 10 ∨ c = 13 ∨ c = 9
  · rcases hspecial with rfl | rfl | rfl | rfl
    · exact (readEntry.eq_def _).trans rfl
    · exact (readEntry.eq_def _).trans rfl
    · rfl
    · exact (readEntry.eq_def _).trans rfl
  obtain ⟨h92, h10, h13, h9⟩ := not_or.mp hspecial |>.imp_right fun h => (not_or.mp h).imp_right not_or.mp
  rw [if_neg h92, if_neg h10, if_neg h13, if_neg h9, if_neg h13]
  split_ifs
  · obtain ⟨hdigits, hback⟩ := xdigits c.toNat c.toNat_lt
    rw [UInt8.ofNat_toNat] at hdigits hback
    have hread := congrArg (appendChar · (readEntry f)) hback
    rw [readEntry.eq_def]
    exact (if_pos hdigits).trans (hread.trans (appendChar_of_ne hc))
  · rw [readEntry.eq_def]
    exact (if_neg h10).trans ((if_neg h92).trans (appendChar_of_ne hc))

theorem readEntry_escapes (hbs : ∀ b ∈ bs, b ≠ 0) :
    readEntry (bs.flatMap escape ++ 10 :: f) = some (bs.filter (· ≠ 13), some f) := by
  induction bs with
  | nil => exact (readEntry.eq_def _).trans rfl
  | cons b bs ih =>
    rw [flatMap_cons, append_assoc, readEntry_escape (hbs b mem_cons_self), ih (fun c hc => hbs c (mem_cons_of_mem b hc))]
    by_cases h13 : b = 13
    · rw [if_pos h13, filter_cons_of_neg (by simpa using h13)]
    · rw [if_neg h13, filter_cons_of_pos (by simpa using h13)]
      rfl

/-! ### What is loaded -/

theorem load_eq {sbuf : Bytes} {rest : Option Bytes} (hr : readEntry f = some (sbuf, rest)) :
    h.load f = match if sbuf = [] ∨ sbuf.head? = some 35 then some h else h.push (cstr sbuf), rest with
      | some h, some f' => h.load f'
      | some h, none => h
      | none, _ => h := by
  rw [load]
  split
  · next heq => cases hr.symm.trans heq
  · next heq =>
    cases hr.symm.trans heq
    rfl

theorem cstr_filter (text : CStr) : (cstr (text.bytes.filter (· ≠ 13))).bytes = text.bytes.filter (· ≠ 13) :=
  takeWhile_eq_self_iff.mpr fun b hb => by simpa using text.noNul b (mem_of_mem_filter hb)

theorem load_saved (es : List HistoryEntry) (hlen : h.len ≠ 0) :
    h.load (es.flatMap saveEntry) = (es.filterMap HistoryEntry.reloaded).foldl (fun h t => h.pushed t) h := by
  induction es generalizing h with
  | nil => exact load_eq (readEntry.eq_def [])
  | cons e es ih =>
    rw [flatMap_cons, filterMap_cons, HistoryEntry.reloaded, saveEntry, cstr_filter]
    by_cases htransient : e.transient = true
    · rw [if_pos htransient, if_pos htransient, nil_append]
      exact ih hlen
    rw [if_neg htransient, if_neg htransient, writeEntry]
    have hread := fun f => readEntry_escapes (f := f) e.text.noNul
    by_cases hempty : e.text.bytes.flatMap escape = []
    · rw [hempty] at hread
      have hnil : [] = _ := congrArg Prod.fst (Option.some.inj ((readEntry.eq_def [10]).symm.trans (hread [])))
      rw [if_pos hempty, if_pos (.inl hnil.symm), nil_append]
      exact ih hlen
    · rw [if_neg hempty, append_assoc, singleton_append, load_eq (hread _)]
      by_cases hskip : e.text.bytes.filter (· ≠ 13) = [] ∨ (e.text.bytes.filter (· ≠ 13)).head? = some 35
      · rw [if_pos hskip, if_pos hskip]
        exact ih hlen
      · rw [if_neg hskip, if_neg hskip, push, if_neg hlen]
        exact ih hlen

/-- **What is saved is loaded**, into whatever history: each entry as the file keeps it, oldest first. -/
theorem load_save (h h₀ : History) (hlen : h₀.len ≠ 0) :
    h₀.load h.save = (h.elems.filterMap reloaded).foldl (fun h t => h.pushed t) h₀ := load_saved h.elems hlen

/-- A line that starts with '#' is lost. -/
theorem load_save_comment :
    History.load { len := 2 } (save { len := 2, elems := [{ text := cstr [35, 97] }, { text := cstr [97, 13] }] }) =
      { len := 2, elems := [{ text := cstr [97] }] } := load_save _ _ (by decide)

/-! ### Calls -/

/-- `history_remove_last`. -/
def removeLast (h : History) : History := { h with elems := h.elems.dropLast }

inductive Call
  | push (entry : CStr)
  | update (entry : CStr)
  | load (f : Bytes)
  | removeLast

/-- A call that is refused changes nothing. -/
def step (h : History) : Call → Option History
  | .push entry => h.push entry
  | .update entry => h.removeLast.push entry
  | .load f => some (h.load f)
  | .removeLast => some h.removeLast

/-- What every run without duplicates keeps. -/
structure Distinct (n : ℕ) (h : History) : Prop where
  len : h.len = n
  room : h.elems.length ≤ n
  nodup : (h.elems.map HistoryEntry.text).Nodup
  single : h.allowDuplicates = false

variable {h' : History} {n : ℕ} {entry : CStr} {es : List HistoryEntry}

theorem removeDuplicates_sublist (entry : CStr) (es : List HistoryEntry) : (removeDuplicates entry es).Sublist es := by
  fun_induction removeDuplicates entry es with grind

theorem not_mem_removeDuplicates (h : (es.map HistoryEntry.text).Nodup) :
    entry ∉ (removeDuplicates entry es).map HistoryEntry.text := by
  fun_induction removeDuplicates entry es with grind [(removeDuplicates_sublist entry _).subset]

theorem Distinct.sublist (hd : Distinct n h) (hsub : es.Sublist h.elems) : Distinct n { h with elems := es } :=
  ⟨hd.len, hsub.length_le.trans hd.room, hd.nodup.sublist (hsub.map _), hd.single⟩

theorem Distinct.append (hd : Distinct n h) (hes : es.Sublist (removeDuplicates entry h.elems)) (hlt : es.length < n) :
    Distinct n { len := h.len, elems := es ++ [{ text := entry }] } := by
  refine ⟨hd.len, by simpa using hlt, ?_, rfl⟩
  rw [map_append, nodup_append]
  refine ⟨hd.nodup.sublist ((hes.trans (removeDuplicates_sublist ..)).map _), nodup_singleton _, fun a ha b hb heq => ?_⟩
  obtain rfl := mem_singleton.mp hb
  exact not_mem_removeDuplicates hd.nodup ((hes.map _).subset (heq ▸ ha))

theorem Distinct.push (hd : Distinct n h) (hp : h.push entry = some h') : Distinct n h' := by
  have hle := (removeDuplicates_sublist entry h.elems).length_le.trans hd.room
  have hlen := hd.len
  unfold History.push pushed at hp
  rw [hd.single, if_neg Bool.false_ne_true] at hp
  dsimp only at hp
  split_ifs at hp with h0 hfull <;> obtain rfl := Option.some.inj hp
  · refine hd.append (drop_sublist _ _) ?_
    rw [length_drop]
    omega
  · exact hd.append (.refl _) (lt_of_le_of_ne hle (hlen ▸ hfull))

theorem Distinct.load (hd : Distinct n h) (f : Bytes) : Distinct n (h.load f) := by
  fun_induction History.load h f with grind [Distinct.push]

theorem Distinct.step (hd : Distinct n h) (m : Call) (hs : h.step m = some h') : Distinct n h' := by
  have hlast : Distinct n h.removeLast := hd.sublist (dropLast_sublist _)
  cases m with
  | push entry => exact hd.push hs
  | update entry => exact hlast.push hs
  | load f => exact Option.some.inj hs ▸ hd.load f
  | removeLast => exact Option.some.inj hs ▸ hlast

/-- **No line is kept twice**, and never too many, whatever is pushed and whatever the files hold. -/
theorem distinct_of_run (hrun : Run step (fun _ _ => True) { len := n } h) : Distinct n h :=
  hrun.preserves (fun _ m _ hd _ hs => hd.step m hs) ⟨rfl, Nat.zero_le _, nodup_nil, rfl⟩

/-- A second line takes the place of the first. -/
theorem distinct_of_run_push : Distinct 1 { len := 1, elems := [{ text := cstr [98] }] } :=
  distinct_of_run (.tail (.single trivial (m := .push (cstr [97])) rfl) trivial (m := .push (cstr [98])) rfl)

end History

end Libx.Line
