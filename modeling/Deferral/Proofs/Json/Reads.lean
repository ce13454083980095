import Deferral.Json.Parser

/-!
# What a reader gets and what it leaves

A reader goes through a text from the front. `Reads` says which value it gets from a text and what
it leaves of it, and `Refuses` that it fails. Both are about every place at which the text may
begin, since places matter for nothing but the errors that name them. Readers that follow each other
are dealt with by `Leads`: reading goes on with another reader on what is left.
-/

namespace Deferral.Json

section Sequence

variable {ε α β : Type}

/-- Reading a text comes to what another reader makes of another text. -/
def Leads (reader : StateT Cursor (Except ε) α) (before : List Char)
    (other : StateT Cursor (Except ε) α) (after : List Char) : Prop :=
  ∀ offset, ∃ offset', reader ⟨offset, before⟩ = other ⟨offset', after⟩

/-- A reader gets a value from the front of a text and leaves the rest. -/
def Reads (reader : StateT Cursor (Except ε) α) (before : List Char) (value : α)
    (after : List Char) : Prop :=
  Leads reader before (pure value) after

/-- A reader fails on a text with an error of some kind. -/
def Refuses (reader : StateT Cursor (Except ε) α) (before : List Char) (wrong : ε → Prop) : Prop :=
  ∀ offset, ∃ error, wrong error ∧ reader ⟨offset, before⟩ = .error error

/-- A reader gets some value and leaves the given text, or it fails. -/
def Settles (reader : StateT Cursor (Except ε) α) (before after : List Char) : Prop :=
  (∃ value, Reads reader before value after) ∨ Refuses reader before fun _ => True

variable {reader other third : StateT Cursor (Except ε) α} {next : α → StateT Cursor (Except ε) β}
  {before middle after : List Char} {value : α} {result : β} {wrong : ε → Prop}

theorem Leads.refl (reader : StateT Cursor (Except ε) α) (before : List Char) :
    Leads reader before reader before :=
  fun offset => ⟨offset, rfl⟩

theorem Leads.trans (first : Leads reader before other middle)
    (second : Leads other middle third after) :
    Leads reader before third after := by
  intro offset
  rcases first offset with ⟨between, first_eq⟩
  rcases second between with ⟨offset', second_eq⟩
  exact ⟨offset', first_eq.trans second_eq⟩

theorem Leads.refuses (leads : Leads reader before other after)
    (refuses : Refuses other after wrong) :
    Refuses reader before wrong := by
  intro offset
  rcases leads offset with ⟨offset', leads_eq⟩
  rcases refuses offset' with ⟨error, kind, refused⟩
  exact ⟨error, kind, leads_eq.trans refused⟩

theorem Reads.pure (value : α) (text : List Char) :
    Reads (ε := ε) (Pure.pure value) text value text :=
  .refl _ _

/-- What follows a reader goes on with the value that was read. -/
theorem Reads.leads (reads : Reads reader before value middle) :
    Leads (reader >>= next) before (next value) middle := by
  intro offset
  rcases reads offset with ⟨offset', read⟩
  refine ⟨offset', ?_⟩
  show (reader ⟨offset, before⟩ >>= fun read => next read.1 read.2) = _
  rw [read]
  rfl

theorem Leads.map (leads : Leads reader before other after) (function : α → β) :
    Leads (function <$> reader) before (function <$> other) after := by
  intro offset
  rcases leads offset with ⟨offset', leads_eq⟩
  refine ⟨offset', ?_⟩
  show (reader ⟨offset, before⟩ >>= fun read => Pure.pure (function read.1, read.2)) = _
  rw [leads_eq]
  rfl

theorem Reads.bind (reads : Reads reader before value middle)
    (nexts : Reads (next value) middle result after) :
    Reads (reader >>= next) before result after :=
  reads.leads.trans nexts

theorem Reads.refuses (reads : Reads reader before value middle)
    (refuses : Refuses (next value) middle wrong) : Refuses (reader >>= next) before wrong :=
  reads.leads.refuses refuses

theorem Refuses.bind (refuses : Refuses reader before wrong) :
    Refuses (reader >>= next) before wrong := by
  intro offset
  rcases refuses offset with ⟨error, kind, refused⟩
  refine ⟨error, kind, ?_⟩
  show (reader ⟨offset, before⟩ >>= fun read => next read.1 read.2) = _
  rw [refused]
  rfl

theorem Reads.settles (reads : Reads reader before value after) : Settles reader before after :=
  .inl ⟨value, reads⟩

theorem Refuses.anyhow (refuses : Refuses reader before wrong) :
    Refuses reader before fun _ => True := by
  intro offset
  rcases refuses offset with ⟨error, _, refused⟩
  exact ⟨error, trivial, refused⟩

/-- If all that could be done next fails, then it does not matter what the reader gets. -/
theorem refuses_bind (nexts : ∀ value text, Refuses (next value) text fun _ => True)
    (text : List Char) :
    Refuses (reader >>= next) text fun _ => True := by
  intro offset
  have bind_eq : (reader >>= next) ⟨offset, text⟩ =
      reader ⟨offset, text⟩ >>= fun read => next read.1 read.2 :=
    rfl
  rw [bind_eq]
  cases reader ⟨offset, text⟩ with
  | error error => exact ⟨error, trivial, rfl⟩
  | ok read => exact nexts read.1 read.2.rest read.2.offset

theorem Refuses.settles (refuses : Refuses reader before wrong) : Settles reader before after :=
  .inr refuses.anyhow

theorem Leads.settles (leads : Leads reader before other middle)
    (settles : Settles other middle after) :
    Settles reader before after := by
  rcases settles with ⟨value, reads⟩ | refuses
  · exact .inl ⟨value, leads.trans reads⟩
  · exact .inr (leads.refuses refuses)

theorem Settles.bind (settles : Settles reader before middle)
    (nexts : ∀ value, Settles (next value) middle after) :
    Settles (reader >>= next) before after := by
  rcases settles with ⟨value, reads⟩ | refuses
  · exact reads.leads.settles (nexts value)
  · exact .inr refuses.bind

theorem Settles.map (settles : Settles reader before after) (function : α → β) :
    Settles (function <$> reader) before after := by
  rw [map_eq_pure_bind]
  exact settles.bind fun value => (Reads.pure _ _).settles

end Sequence

/-- Characters that may stand between the parts of a text. -/
def Blanks (text : List Char) : Prop := ∀ char ∈ text, Scan.isBlank char = true

/-- A text does not begin with a blank. -/
def Solid (text : List Char) : Prop := ∀ char ∈ text.head?, Scan.isBlank char = false

theorem Blanks.nil : Blanks [] := by
  simp [Blanks]

theorem Blanks.append {first second : List Char} (blank : Blanks first) (blank' : Blanks second) :
    Blanks (first ++ second) := by
  intro char mem
  rcases List.mem_append.mp mem with mem | mem
  · exact blank char mem
  · exact blank' char mem

theorem Solid.cons {char : Char} (solid : Scan.isBlank char = false) (rest : List Char) :
    Solid (char :: rest) := by
  simpa [Solid] using solid

namespace Scan

variable {blanks rest : List Char}

theorem afterBlanks_append (blank : Blanks blanks) (solid : Solid rest) (offset : Nat) :
    afterBlanks offset (blanks ++ rest) = ⟨offset + blanks.length, rest⟩ := by
  induction blanks generalizing offset with
  | nil =>
      cases rest with
      | nil => rfl
      | cons char rest => simp [afterBlanks, solid char rfl]
  | cons char blanks ih =>
      rcases List.forall_mem_cons.mp blank with ⟨char_blank, blank⟩
      simp [afterBlanks, char_blank, ih blank, Nat.add_comm 1, Nat.add_assoc]

theorem reads_skipBlanks (blank : Blanks blanks) (solid : Solid rest) :
    Reads skipBlanks (blanks ++ rest) rest.head? rest := by
  intro offset
  refine ⟨offset + blanks.length, ?_⟩
  simp only [skipBlanks, afterBlanks_append blank solid]
  rfl

/-- Blanks are read up to the character that stands behind them. -/
theorem reads_skipBlanks_cons (blank : Blanks blanks) {char : Char}
    (solid : isBlank char = false)
    (rest : List Char) :
    Reads skipBlanks (blanks ++ char :: rest) (some char) (char :: rest) :=
  reads_skipBlanks blank (.cons solid rest)

theorem refuses_failNext {α : Type} (flaw : Flaw) (text : List Char) :
    Refuses (failNext flaw : Scan α) text (·.flaw = flaw) :=
  fun _ => ⟨_, rfl, rfl⟩

theorem reads_peek (text : List Char) : Reads peek text text.head? text :=
  fun offset => ⟨offset, rfl⟩

theorem reads_advance (char : Char) (rest : List Char) : Reads advance (char :: rest) () rest :=
  fun offset => ⟨offset + char.utf8Size, rfl⟩

theorem reads_letters (word rest : List Char) : Reads (letters word) (word ++ rest) () rest := by
  induction word with
  | nil => exact .pure _ _
  | cons letter word ih =>
      apply (reads_peek _).bind
      simpa using (reads_advance letter (word ++ rest)).bind ih

end Scan

end Deferral.Json
