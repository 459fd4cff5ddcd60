/-
How a message comes about.

A template is written in characters.  Some of them are for the message as they are, and what stands
between braces is the name of a detail.  That gives its pieces, and a text has them in one way only
(`Catalogue.Spells.unique`), since no character that is kept is a brace that opens and no name goes
on past a brace that closes.

To fill a template is to go through its pieces once.  A detail is put where its name is, and the
walk goes on behind the name.  What a detail holds is never looked at, so a detail that looks like a
piece of a template is nothing but text (`Catalogue.fillFrom_written`).  What remains to be known is
that there is something to fill and something to fill it with, for each cause: its code is one of
the catalogue, and the names there are those of its details (`Cause.exists_entry`).
-/
import CommandLines.Fault.Basic

namespace CommandLines

namespace Catalogue

/-! ### The pieces of a template -/

/-- A piece of a template. -/
inductive Piece where
  /-- A character of the message. -/
  | kept (c : Char)
  /-- The name of a detail. -/
  | name (key : List Char)
deriving DecidableEq

namespace Piece

/-- How a piece is written: a name stands in braces. -/
def written : Piece → List Char
  | kept c => [c]
  | name key => '\x7b' :: (key ++ ['\x7d'])

/-- A kept character opens no name, and a name holds no brace that would close it and no blanks that
are not part of it. -/
def Plain : Piece → Prop
  | kept c => c ≠ '\x7b'
  | name key => '\x7d' ∉ key ∧ trim key = key

instance : DecidablePred Plain
  | kept _ => inferInstanceAs (Decidable (_ ≠ _))
  | name _ => inferInstanceAs (Decidable (_ ∧ _))

/-- The name, if the piece is one. -/
def name? : Piece → Option String
  | kept _ => none
  | name key => some (String.ofList key)

/-- What a piece is in the message: a character is itself, and a name is the detail that it names,
character by character. -/
def filled (details : List (String × String)) : Piece → List Char
  | kept c => [c]
  | name key => ((Dictionary.get? details (String.ofList key)).getD "").toList

end Piece

/-- The pieces make up the template. -/
structure Spells (pieces : List Piece) (template : String) : Prop where
  written : template = String.ofList (pieces.flatMap Piece.written)
  plain : ∀ p ∈ pieces, p.Plain

/-- The pieces of a text.  The first argument is what has been read, in reverse, since a brace
opened; where it is never closed, nothing more is found. -/
def piecesFrom : Option (List Char) → List Char → List Piece
  | _, [] => []
  | none, c :: cs =>
    if c == '\x7b' then piecesFrom (some []) cs else .kept c :: piecesFrom none cs
  | some key, c :: cs =>
    if c == '\x7d' then .name key.reverse :: piecesFrom none cs
    else piecesFrom (some (c :: key)) cs

theorem piecesFrom_key {key : List Char} (h : '\x7d' ∉ key) (before rest : List Char) :
    piecesFrom (some before) (key ++ '\x7d' :: rest) =
      .name (before.reverse ++ key) :: piecesFrom none rest := by
  induction key generalizing before with
  | nil => simp [piecesFrom]
  | cons c key ih =>
    obtain ⟨hc, hkey⟩ := not_or.1 (mt List.mem_cons.2 h)
    simp [piecesFrom, Ne.symm hc, ih hkey]

theorem piecesFrom_written {ps : List Piece} (h : ∀ p ∈ ps, p.Plain) :
    piecesFrom none (ps.flatMap Piece.written) = ps := by
  induction ps with
  | nil => rfl
  | cons p ps ih =>
    obtain ⟨hp, hps⟩ := List.forall_mem_cons.1 h
    cases p with
    | kept c =>
      have hc : c ≠ '\x7b' := hp
      simp [Piece.written, piecesFrom, hc, ih hps]
    | name key => simp [Piece.written, piecesFrom, piecesFrom_key hp.1, ih hps]

/-- A template has its pieces in one way. -/
theorem Spells.unique {ps qs : List Piece} {template : String} (h : Spells ps template)
    (g : Spells qs template) : ps = qs := by
  have hwritten : ps.flatMap Piece.written = qs.flatMap Piece.written :=
    String.ofList_injective (h.written.symm.trans g.written)
  rw [← piecesFrom_written h.plain, hwritten, piecesFrom_written g.plain]

/-! ### Filling one -/

theorem fillFrom_key {key : List Char} (h : '\x7d' ∉ key) {details : List (String × String)}
    {before : List Char} {text : String}
    (htext : Dictionary.get? details (String.ofList (trim (before.reverse ++ key))) = some text)
    (rest : List Char) :
    fillFrom details (some before) (key ++ '\x7d' :: rest) =
      text.toList ++ fillFrom details none rest := by
  induction key generalizing before with
  | nil =>
    rw [List.append_nil] at htext
    simp [fillFrom, htext]
  | cons c key ih =>
    obtain ⟨hc, hkey⟩ := not_or.1 (mt List.mem_cons.2 h)
    have hnext := @ih hkey (c :: before) (by simpa using htext)
    simp [fillFrom, Ne.symm hc, hnext]

/-- Where there is a detail for each name, filling goes piece by piece. -/
theorem fillFrom_written {ps : List Piece} (h : ∀ p ∈ ps, p.Plain)
    {details : List (String × String)}
    (hkeys : ∀ key, .name key ∈ ps → String.ofList key ∈ details.map Prod.fst) :
    fillFrom details none (ps.flatMap Piece.written) = ps.flatMap (Piece.filled details) := by
  induction ps with
  | nil => rfl
  | cons p ps ih =>
    obtain ⟨hp, hps⟩ := List.forall_mem_cons.1 h
    have hrest := ih hps fun key hkey => hkeys key (.tail p hkey)
    cases p with
    | kept c =>
      have hc : c ≠ '\x7b' := hp
      simp [Piece.written, Piece.filled, fillFrom, hc, hrest]
    | name key =>
      obtain ⟨text, htext⟩ := Dictionary.exists_get?_of_mem (hkeys key (.head ps))
      have hkey : fillFrom details (some []) (key ++ '\x7d' :: ps.flatMap Piece.written) =
          text.toList ++ fillFrom details none (ps.flatMap Piece.written) :=
        fillFrom_key hp.1 (by simpa [hp.2] using htext) _
      simp [Piece.written, Piece.filled, fillFrom, hkey, htext, hrest]

theorem fill_of_spells {ps : List Piece} {template : String} (h : Spells ps template)
    {details : List (String × String)}
    (hkeys : ∀ key, .name key ∈ ps → String.ofList key ∈ details.map Prod.fst) :
    fill details template = String.ofList (ps.flatMap (Piece.filled details)) := by
  rw [fill, h.written, String.toList_ofList, fillFrom_written h.plain hkeys]

theorem spells_ofList {cs : List Char} (h : cs = (piecesFrom none cs).flatMap Piece.written)
    (hplain : ∀ p ∈ piecesFrom none cs, p.Plain) :
    Spells (piecesFrom none cs) (String.ofList cs) := ⟨congrArg String.ofList h, hplain⟩

end Catalogue

theorem Diagnostic.details?_ofCode (code : String) (details : List (String × String))
    (span? : Option Span) :
    (Diagnostic.ofCode code details span?).details? =
      if details = [] then none else some details := by
  simp only [Diagnostic.ofCode, List.isEmpty_iff]

/-- The catalogue has each cause, and in its template the names of the details, each once. -/
theorem Cause.exists_entry (c : Cause) :
    ∃ entry pieces, Catalogue.find? c.code = some entry ∧
      Catalogue.Spells pieces entry.template ∧
      (pieces.filterMap Catalogue.Piece.name?).Perm (c.details.map Prod.fst) := by
  cases c with
  | badNumber t | expectedNumber t | tooLow t | tooHigh t =>
    cases t
    all_goals
      refine ⟨_, _, rfl, Catalogue.spells_ofList (by decide) (by decide), ?_⟩
      simp only [details, List.map_cons, List.map_nil]
      decide
  | _ =>
    refine ⟨_, _, rfl, Catalogue.spells_ofList (by decide) (by decide), ?_⟩
    simp only [details, List.map_cons, List.map_nil]
    decide

/--
**A message is the template of its code, filled with the details of its fault.**

Whatever the fault and the texts in it, the catalogue has an entry for its code, so that no message
is only a code.  The pieces of the template there are determined by how it is written, and the names
among them are those of the details, each once.  The message is what the pieces are one after the
other: characters of the template as they are, and in the place of a name the detail of that name
character by character, whether or not these look like pieces themselves.  The diagnostic has this
message, and the details unless there are none.  It is the same with any other texts under the names
of the details.
-/
theorem Fault.message_filled (f : Fault) :
    ∃ entry pieces, Catalogue.find? f.cause.code = some entry ∧
      (Catalogue.Spells pieces entry.template ∧
        ∀ others, Catalogue.Spells others entry.template → others = pieces) ∧
      (pieces.filterMap Catalogue.Piece.name?).Perm (f.cause.details.map Prod.fst) ∧
      (Catalogue.message? f.cause.code f.cause.details = some f.cause.message ∧
        f.cause.message.toList = pieces.flatMap (Catalogue.Piece.filled f.cause.details)) ∧
      (f.toDiagnostic.message = f.cause.message ∧
        f.toDiagnostic.details? = if f.cause.details = [] then none else some f.cause.details) ∧
      ∀ details span?, details.map Prod.fst = f.cause.details.map Prod.fst →
        Catalogue.message? f.cause.code details =
            some (String.ofList (pieces.flatMap (Catalogue.Piece.filled details))) ∧
          (Diagnostic.ofCode f.cause.code details span?).message =
            String.ofList (pieces.flatMap (Catalogue.Piece.filled details)) ∧
          (Diagnostic.ofCode f.cause.code details span?).details? =
            if details = [] then none else some details := by
  obtain ⟨entry, pieces, hentry, hspells, hnames⟩ := f.cause.exists_entry
  have hfilled : ∀ details, details.map Prod.fst = f.cause.details.map Prod.fst →
      Catalogue.message? f.cause.code details =
        some (String.ofList (pieces.flatMap (Catalogue.Piece.filled details))) := by
    intro details hdetails
    have hkeys : ∀ key, .name key ∈ pieces → String.ofList key ∈ details.map Prod.fst := by
      intro key hkey
      rw [hdetails, ← hnames.mem_iff]
      exact List.mem_filterMap.2 ⟨.name key, hkey, rfl⟩
    rw [Catalogue.message?, hentry, Option.map_some, Catalogue.fill_of_spells hspells hkeys]
  have hmessage : Catalogue.message? f.cause.code f.cause.details = some f.cause.message := by
    rw [Cause.message, hfilled _ rfl, Option.getD_some]
  refine ⟨entry, pieces, hentry, ⟨hspells, fun _ h => h.unique hspells⟩, hnames,
    ⟨hmessage, ?_⟩, ⟨?_, ?_⟩, ?_⟩
  · rw [Cause.message, hfilled _ rfl, Option.getD_some, String.toList_ofList]
  · rw [Fault.toDiagnostic, Diagnostic.ofCode, hmessage, Option.getD_some]
  · rw [Fault.toDiagnostic, Diagnostic.details?_ofCode]
  · intro details span? hdetails
    refine ⟨hfilled details hdetails, ?_, Diagnostic.details?_ofCode ..⟩
    rw [Diagnostic.ofCode, hfilled details hdetails, Option.getD_some]

/-- A word that looks like the name it is put in the place of. -/
example : (Cause.badBool "{value}").message =
    "Invalid bool, expected true or false but found '{value}'" := by
  decide +kernel

end CommandLines
