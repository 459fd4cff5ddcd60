/-
What a reading says about a tree and a line.

A match is a token when it is a child that the source may use, when it covers exactly what
its node takes, and when a space or the end follows it.  A trail goes from token to token:
one space on and one level down, or, where a node redirects, one space on and below the
redirect's target, which starts another hop.  Where the line ends on a node that has no
command, defaults may follow the last token, and they cover nothing.

The hops themselves are told by `Shaped`: whatever else a hop says is what its matches say.
`Grown` is the same between two hops, and is what one match, and so a row of them, adds.
-/
import CommandLines.Cursor.Place
import CommandLines.Proofs.List
import CommandLines.Proofs.Reading.Steps

namespace CommandLines

variable {Source Command Modifier : Type}

/-- The byte at an offset of a line is a space. -/
def SpaceAt (line : String) (offset : Nat) : Prop :=
  (Span.mk offset (offset + 1)).text? line = some " "

namespace Tree

/-- The match is of an argument, whose type reads the value from exactly where the match starts to
exactly where it stops. -/
def Reads (t : Tree Source Command Modifier) (line : String) (m : Match) (name : String)
    (value : Value) : Prop :=
  ∃ type provider? c after, (t.node m.node).label? = some (.argument name type provider?) ∧
    Cursor.place c = ⟨line, m.span.start⟩ ∧ Cursor.place after = ⟨line, m.span.stop⟩ ∧
    type.readValue c = (.ok value, after)

/-- The match is of an argument at the end of the line, and the value is the one that stands in for
it there. -/
def StandsIn (t : Tree Source Command Modifier) (line : String) (m : Match) (name : String)
    (value : Value) : Prop :=
  ∃ type provider?, (t.node m.node).label? = some (.argument name type provider?) ∧
    (t.node m.node).default? = some value ∧ m.span = .point (Text.bytes line.toList)

/-- The match covers exactly what its node takes: a literal its word, and an argument what its type
reads there. -/
def Covers (t : Tree Source Command Modifier) (line : String) (m : Match) : Prop :=
  (∃ word, (t.node m.node).label? = some (.literal word) ∧ m.span.text? line = some word) ∨
    ∃ name value, t.Reads line m name value

variable (t : Tree Source Command Modifier) (source : Source) (line : String)

/-- A match at an offset of a child that the source may use. -/
structure Token (parent : NodeId) (start : Nat) (m : Match) : Prop where
  child : m.node ∈ (t.node parent).children
  allowed : (t.node m.node).allows source = true
  start_eq : m.span.start = start
  ordered : m.span.start ≤ m.span.stop
  covers : t.Covers line m
  followed : m.span.stop = Text.bytes line.toList ∨ SpaceAt line m.span.stop

/-- Defaults at the end of the line, each of a child of the node before it. -/
def Defaults : NodeId → List Match → Prop
  | _, [] => True
  | parent, m :: ms =>
    (m.node ∈ (t.node parent).children ∧ (t.node m.node).allows source = true ∧
      (t.node m.node).default?.isSome = true ∧ m.span = .point (Text.bytes line.toList)) ∧
    Defaults m.node ms

/-- A hop that starts below a node at an offset says what its matches say. -/
structure Shaped (root : NodeId) (start : Nat) (h : Hop Source Command Modifier) : Prop where
  source_eq : h.source = source
  root_eq : h.root = root
  span_eq : h.span = ⟨start, (h.nodes.map (·.span.stop)).getLastD start⟩
  command_eq : h.command? = h.nodes.getLast?.bind fun m => (t.node m.node).command?
  modifier_eq : h.modifier? =
    h.nodes.getLast?.bind fun m => (t.node m.node).redirect?.bind Redirect.modifier?
  forks_eq : h.forks =
    (h.nodes.getLast?.bind fun m => (t.node m.node).redirect?.map Redirect.forks).getD false
  /-- Every argument was read by one of the matches, or stands in for it. -/
  arguments : ∀ entry ∈ h.arguments, ∃ m ∈ h.nodes, entry.2.span = m.span ∧
    (t.Reads line m entry.1 entry.2.value ∨ t.StandsIn line m entry.1 entry.2.value)

/-- The matches of a hop from a node and an offset on, the hops after it, and the offset at which
the reading stops. -/
inductive Trail :
    NodeId → Nat → List Match → List (Hop Source Command Modifier) → Nat → Prop where
  /-- Nothing more is matched. -/
  | stops {parent : NodeId} {start : Nat} : Trail parent start [] [] start
  /-- The reading stops after a token.  If the line ends there without a command, defaults may
  follow. -/
  | ends {parent : NodeId} {start : Nat} {m : Match} {defaults : List Match}
      (token : t.Token source line parent start m) (rest : t.Defaults source line m.node defaults)
      (atEnd : defaults ≠ [] →
        m.span.stop = Text.bytes line.toList ∧ (t.node m.node).command? = none) :
      Trail parent start (m :: defaults) [] m.span.stop
  /-- A space on, the hop goes on below the token. -/
  | descends {parent : NodeId} {start stop : Nat} {m : Match} {ms : List Match}
      {later : List (Hop Source Command Modifier)}
      (token : t.Token source line parent start m) (space : SpaceAt line m.span.stop)
      (stays : (t.node m.node).redirect? = none)
      (rest : Trail m.node (m.span.stop + 1) ms later stop) :
      Trail parent start (m :: ms) later stop
  /-- A space on, another hop starts at the target of the token's redirect. -/
  | redirects {parent : NodeId} {start stop : Nat} {m : Match} {redirect : Redirect Modifier}
      {next : Hop Source Command Modifier} {later : List (Hop Source Command Modifier)}
      (token : t.Token source line parent start m) (space : SpaceAt line m.span.stop)
      (leaves : (t.node m.node).redirect? = some redirect)
      (shaped : t.Shaped source line redirect.target (m.span.stop + 1) next)
      (rest : Trail redirect.target (m.span.stop + 1) next.nodes later stop) :
      Trail parent start [m] (next :: later) stop

/-- The second hop is the first one with more matches. -/
structure Grown (before : Hop Source Command Modifier) (ms : List Match)
    (after : Hop Source Command Modifier) : Prop where
  source_eq : after.source = before.source
  root_eq : after.root = before.root
  nodes_eq : after.nodes = before.nodes ++ ms
  span_eq : after.span = ms.foldl (fun s m => s.hull m.span) before.span
  command_eq : after.command? = ms.foldl (fun _ m => (t.node m.node).command?) before.command?
  modifier_eq : after.modifier? =
    ms.foldl (fun _ m => (t.node m.node).redirect?.bind Redirect.modifier?) before.modifier?
  forks_eq : after.forks =
    ms.foldl (fun _ m => ((t.node m.node).redirect?.map Redirect.forks).getD false) before.forks
  arguments : ∀ entry ∈ after.arguments, entry ∈ before.arguments ∨ ∃ m ∈ ms,
    entry.2.span = m.span ∧
      (t.Reads line m entry.1 entry.2.value ∨ t.StandsIn line m entry.1 entry.2.value)

variable {t source line} {a b c : Hop Source Command Modifier} {ms ns : List Match}

theorem Grown.refl (a : Hop Source Command Modifier) : t.Grown line a [] a :=
  ⟨rfl, rfl, by simp, rfl, rfl, rfl, rfl, fun _ h => .inl h⟩

theorem Grown.trans (h : t.Grown line a ms b) (k : t.Grown line b ns c) :
    t.Grown line a (ms ++ ns) c where
  source_eq := k.source_eq.trans h.source_eq
  root_eq := k.root_eq.trans h.root_eq
  nodes_eq := by rw [k.nodes_eq, h.nodes_eq, List.append_assoc]
  span_eq := by rw [k.span_eq, h.span_eq, List.foldl_append]
  command_eq := by rw [k.command_eq, h.command_eq, List.foldl_append]
  modifier_eq := by rw [k.modifier_eq, h.modifier_eq, List.foldl_append]
  forks_eq := by rw [k.forks_eq, h.forks_eq, List.foldl_append]
  arguments := by
    intro entry hentry
    rcases k.arguments entry hentry with hb | ⟨m, hm, hgives⟩
    · refine (h.arguments entry hb).imp_right ?_
      intro hmatch
      obtain ⟨m, hm, hgives⟩ := hmatch
      exact ⟨m, List.mem_append_left _ hm, hgives⟩
    · exact .inr ⟨m, List.mem_append_right _ hm, hgives⟩

/-! ### Trails run forward -/

/-- Spans one after another from an offset on. -/
def Ascending : Nat → List Match → Prop
  | _, [] => True
  | start, m :: ms => start ≤ m.span.start ∧ m.span.start ≤ m.span.stop ∧ Ascending m.span.stop ms

theorem ascending_mono {start stop : Nat} (h : Ascending stop ms) (hle : start ≤ stop) :
    Ascending start ms := by
  cases ms with
  | nil => trivial
  | cons m ms => exact ⟨Nat.le_trans hle h.1, h.2⟩

theorem Defaults.of_mem {parent : NodeId} {m : Match} (h : t.Defaults source line parent ms)
    (hm : m ∈ ms) :
    (t.node m.node).default?.isSome = true ∧ m.span = .point (Text.bytes line.toList) := by
  induction ms generalizing parent with
  | nil => cases hm
  | cons k ms ih =>
    obtain ⟨⟨-, -, hdefault, hspan⟩, hrest⟩ := h
    rcases List.mem_cons.1 hm with rfl | hm
    · exact ⟨hdefault, hspan⟩
    · exact ih hrest hm

theorem Defaults.ascending {parent : NodeId} (h : t.Defaults source line parent ms) :
    Ascending (Text.bytes line.toList) ms := by
  induction ms generalizing parent with
  | nil => trivial
  | cons m ms ih =>
    obtain ⟨⟨-, -, -, hspan⟩, hrest⟩ := h
    refine ⟨?_, ?_, ?_⟩
    · simp [hspan, Span.point]
    · simp [hspan, Span.point]
    · simpa [hspan, Span.point] using ih hrest

theorem Trail.ascending {parent : NodeId} {start stop : Nat}
    {later : List (Hop Source Command Modifier)}
    (h : t.Trail source line parent start ms later stop) : Ascending start ms := by
  induction h with
  | stops => trivial
  | @ends parent start m defaults token rest atEnd =>
    refine ⟨Nat.le_of_eq token.start_eq.symm, token.ordered, ?_⟩
    cases defaults with
    | nil => trivial
    | cons d ds =>
      rw [(atEnd (by simp)).1]
      exact rest.ascending
  | descends token space stays rest ih =>
    exact ⟨Nat.le_of_eq token.start_eq.symm, token.ordered, ascending_mono ih (Nat.le_succ _)⟩
  | redirects token space leaves shaped rest ih =>
    exact ⟨Nat.le_of_eq token.start_eq.symm, token.ordered, trivial⟩

theorem foldl_hull {start stop : Nat} (h : Ascending stop ms) (hle : start ≤ stop) :
    ms.foldl (fun s m => s.hull m.span) (Span.mk start stop) =
      ⟨start, (ms.map (·.span.stop)).getLastD stop⟩ := by
  induction ms generalizing stop with
  | nil => rfl
  | cons m ms ih =>
    obtain ⟨hstart, hspan, hrest⟩ := h
    have hhull : (Span.mk start stop).hull m.span = ⟨start, m.span.stop⟩ := by
      simp only [Span.hull, Span.mk.injEq]
      omega
    rw [List.foldl_cons, hhull, ih hrest (by omega), List.map_cons, List.getLastD_cons]

/-- A fresh hop with its matches says what they say. -/
theorem Grown.shaped {root : NodeId} {start : Nat} {h : Hop Source Command Modifier}
    (hgrown : t.Grown line (.start source root start) ms h) (hms : Ascending start ms) :
    h.nodes = ms ∧ t.Shaped source line root start h := by
  have hnodes : h.nodes = ms := by simpa [Hop.start] using hgrown.nodes_eq
  refine ⟨hnodes, hgrown.source_eq, hgrown.root_eq, ?_, ?_, ?_, ?_, ?_⟩
  · rw [hgrown.span_eq, hnodes]
    exact foldl_hull hms (Nat.le_refl _)
  · rw [hgrown.command_eq, hnodes, foldl_last]
    cases ms.getLast? <;> rfl
  · rw [hgrown.modifier_eq, hnodes, foldl_last]
    cases ms.getLast? <;> rfl
  · rw [hgrown.forks_eq, hnodes, foldl_last]
    cases ms.getLast? <;> rfl
  · intro entry hentry
    rw [hnodes]
    refine (hgrown.arguments entry hentry).resolve_left ?_
    simp [Hop.start]

end Tree

end CommandLines
