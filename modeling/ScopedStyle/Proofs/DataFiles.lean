import ScopedStyle.JsonDocument
import ScopedStyle.Proofs.MergeMonoid
import ScopedStyle.Proofs.OverrideFaults

/-! What a data file can hold: texts, numbers, truth values and nothing, and arrays and objects of
these. What is open while a file is read is of these kinds, and so is what is read in the end. No part
of it converts and all names in it are texts, so that whatever is wrong with it as a spec or a patch is
found by the compiler itself. -/
namespace ScopedStyle

/-- A value of a kind that a data file can hold. -/
inductive Value.IsData : Value → Prop where
  | text : (Value.text characters).IsData
  | int : (Value.int number).IsData
  | float : (Value.float number).IsData
  | bool : (Value.bool truth).IsData
  | null : Value.null.IsData
  | list (items : ∀ item ∈ held, item.IsData) : (Value.list held).IsData
  | map (names : ∀ entry ∈ entries, ∃ name, entry.1 = .text name)
      (values : ∀ entry ∈ entries, entry.2.IsData)
      (distinct : (Value.map entries).hasDistinctKeys = true) : (Value.map entries).IsData

theorem Value.isData_list {items : List Value} :
    (Value.list items).IsData ↔ ∀ item ∈ items, item.IsData := by
  constructor
  · intro data
    cases data with
    | list items => exact items
  · exact .list

theorem Value.isData_map {entries : List (Value × Value)} :
    (Value.map entries).IsData ↔
      (∀ entry ∈ entries, (∃ name, entry.1 = .text name) ∧ entry.2.IsData) ∧
        (Value.map entries).hasDistinctKeys = true := by
  constructor
  · intro data
    cases data with
    | map names values distinct =>
      exact ⟨fun entry member => ⟨names entry member, values entry member⟩, distinct⟩
  · rintro ⟨held, distinct⟩
    exact .map (fun entry member => (held entry member).1) (fun entry member => (held entry member).2)
      distinct

/-- Data can be given as it is: no mapping in it has a name twice. -/
theorem Value.IsData.hasDistinctKeys {value : Value} (data : value.IsData) :
    value.hasDistinctKeys = true := by
  cases data with
  | map names values distinct => exact distinct
  | _ => rfl

/-! ## Reading -/

/-- A token that holds data, if it holds a value. -/
def JsonToken.HoldsData : JsonToken → Prop
  | .scalar value => value.IsData
  | _ => True

/-- Whether what is open where a value belongs is data. -/
def JsonContext.HoldsData : JsonContext → Prop
  | .document => True
  | .item before outer => (Value.list before).IsData ∧ outer.HoldsData
  | .entry before _ outer => (Value.map before).IsData ∧ outer.HoldsData

/-- Whether all that has been read is data. -/
def JsonState.HoldsData : JsonState → Prop
  | .anyValue context => context.HoldsData
  | .firstItem outer | .firstName outer => outer.HoldsData
  | .itemEnd items outer => (Value.list items).IsData ∧ outer.HoldsData
  | .nextName entries outer | .colon entries _ outer | .entryEnd entries outer =>
    (Value.map entries).IsData ∧ outer.HoldsData
  | .complete value => value.IsData

theorem isData_of_words : ∀ word ∈ jsonWords, word.2.IsData := by
  simp only [jsonWords, List.forall_mem_cons]
  exact ⟨.null, .bool, .bool, .float, .float, .float, fun _ absent => nomatch absent⟩

theorem isData_of_jsonNumber? {text : List Char} {value : Value} {length : Nat}
    (read : jsonNumber? text = some (value, length)) : value.IsData := by
  unfold jsonNumber? at read
  extract_lets negative width whole afterWhole fraction pointed power at read
  clear_value power
  split at read
  · cases read
  · split at read
    · split at read
      · cases read
        exact .int
      · cases read
        exact .float
    · cases read
      exact .float

theorem jsonToken_holdsData (offset : Nat) (text : List Char) :
    (jsonToken offset text).1.HoldsData := by
  unfold jsonToken
  split
  case h_8 =>
    split <;> trivial
  case h_9 =>
    split
    · next word found => exact isData_of_words _ (List.mem_of_find?_eq_some found)
    · split
      · next value length read => exact isData_of_jsonNumber? read
      · trivial
  all_goals trivial

theorem jsonTokens_holdData (offset counted : Nat) (text : List Char) :
    ∀ positioned ∈ jsonTokens offset counted text, positioned.2.HoldsData := by
  fun_induction jsonTokens offset counted text with
  | case1 => simp [JsonToken.HoldsData]
  | case2 offset c rest left ih => exact ih
  | case3 offset c rest blank ih => exact ih
  | case4 offset c rest proper token known =>
    have holds := jsonToken_holdsData offset (c :: rest)
    rw [known] at holds
    exact List.forall_mem_singleton.mpr holds
  | case5 offset c rest proper token left known ih =>
    have holds := jsonToken_holdsData offset (c :: rest)
    rw [known] at holds
    exact List.forall_mem_cons.mpr ⟨holds, ih⟩

/-- Assigning data to a name leaves data. -/
theorem isData_assign {entries : List (Value × Value)} {value : Value} (name : String)
    (held : (Value.map entries).IsData) (data : value.IsData) :
    (Value.map (assign (.text name) value entries)).IsData := by
  rw [Value.isData_map] at held
  obtain ⟨held, distinct⟩ := held
  have isText : (Value.text name).text? = some name := rfl
  have still := Value.hasDistinctKeys_assign isText distinct data.hasDistinctKeys
  refine Value.isData_map.mpr ⟨?_, still⟩
  clear distinct still
  induction entries with
  | nil => exact List.forall_mem_singleton.mpr ⟨⟨name, rfl⟩, data⟩
  | cons entry rest ih =>
    obtain ⟨⟨named, was⟩, others⟩ := List.forall_mem_cons.mp held
    simp only [assign]
    split
    · exact List.forall_mem_cons.mpr ⟨⟨named, data⟩, others⟩
    · exact List.forall_mem_cons.mpr ⟨⟨named, was⟩, ih others⟩

theorem JsonContext.deliver_holdsData {context : JsonContext} {value : Value}
    (holds : context.HoldsData) (data : value.IsData) : (context.deliver value).HoldsData := by
  cases context with
  | document => exact data
  | item before outer =>
    obtain ⟨items, below⟩ := holds
    exact ⟨.list (List.forall_mem_cons.mpr ⟨data, Value.isData_list.mp items⟩), below⟩
  | entry before name outer => exact ⟨isData_assign name holds.1 data, holds.2⟩

namespace JsonState

variable {state next : JsonState} {context outer : JsonContext} {token : JsonToken} {offset : Nat}

private theorem valueStep_holdsData (holds : context.HoldsData) (given : token.HoldsData)
    (ran : valueStep context offset token = .ok next) : next.HoldsData := by
  unfold valueStep at ran
  split at ran
  · cases ran
    exact holds
  · cases ran
    exact holds
  · cases ran
    exact JsonContext.deliver_holdsData holds .text
  · cases ran
    exact JsonContext.deliver_holdsData holds given
  · cases ran
  · cases ran

private theorem nameStep_holdsData {entries : List (Value × Value)}
    (held : (Value.map entries).IsData) (holds : outer.HoldsData)
    (ran : nameStep entries outer offset token = .ok next) : next.HoldsData := by
  unfold nameStep at ran
  split at ran
  · cases ran
    exact ⟨held, holds⟩
  · cases ran
  · cases ran

/-- What has been read stays data with every token. -/
theorem step_holdsData (holds : state.HoldsData) (given : token.HoldsData)
    (ran : state.step (offset, token) = .ok next) : next.HoldsData := by
  have noItems : (Value.list []).IsData := .list nofun
  have noEntries : (Value.map []).IsData := .map nofun nofun rfl
  simp only [step] at ran
  split at ran
  case h_1 => exact valueStep_holdsData holds given ran
  case h_2 =>
    cases ran
    exact JsonContext.deliver_holdsData holds noItems
  case h_3 outer _ =>
    have opened : (JsonContext.item [] outer).HoldsData := ⟨noItems, holds⟩
    exact valueStep_holdsData opened given ran
  case h_4 =>
    cases ran
    exact holds
  case h_5 =>
    cases ran
    obtain ⟨held, below⟩ := holds
    refine JsonContext.deliver_holdsData below (.list ?_)
    simpa [Value.isData_list] using held
  case h_7 =>
    cases ran
    exact JsonContext.deliver_holdsData holds noEntries
  case h_8 => exact nameStep_holdsData noEntries holds ran
  case h_9 => exact nameStep_holdsData holds.1 holds.2 ran
  case h_10 =>
    cases ran
    exact holds
  case h_12 =>
    cases ran
    exact holds
  case h_13 =>
    cases ran
    exact JsonContext.deliver_holdsData holds.2 holds.1
  case h_15 =>
    cases ran
    exact holds
  all_goals cases ran

/-- What has been read stays data with any number of tokens. -/
theorem foldlM_holdsData {tokens : List (Nat × JsonToken)} (holds : state.HoldsData)
    (given : ∀ positioned ∈ tokens, positioned.2.HoldsData)
    (ran : tokens.foldlM step state = .ok next) : next.HoldsData := by
  induction tokens generalizing state with
  | nil =>
    cases ran
    exact holds
  | cons positioned rest ih =>
    obtain ⟨first, others⟩ := List.forall_mem_cons.mp given
    rw [List.foldlM_cons] at ran
    cases stepped : state.step positioned with
    | error fault =>
      rw [stepped] at ran
      cases ran
    | ok middle =>
      rw [stepped] at ran
      exact ih (step_holdsData holds first stepped) others ran

end JsonState

/-- All that a data file can be read as is data. -/
theorem isData_of_readJson {text : List Char} {value : Value} (read : readJson text = .ok value) :
    value.IsData := by
  unfold readJson at read
  split at read
  · cases read
  · cases ran : (jsonTokens 0 0 text).foldlM JsonState.step (.anyValue .document) with
    | error fault =>
      rw [ran] at read
      cases read
    | ok state =>
      rw [ran] at read
      have opened : (JsonState.anyValue .document).HoldsData := trivial
      have holds : state.HoldsData :=
        JsonState.foldlM_holdsData opened (jsonTokens_holdData 0 0 text) ran
      cases state with
      | complete final =>
        cases read
        exact holds
      | _ => cases read

/-! ## Specs of data -/

namespace Value

variable {value : Value}

theorem IsData.raises (data : value.IsData) : value.raises = false := by
  cases data <;> rfl

theorem IsData.items (data : value.IsData) : ∀ item ∈ value.items, item.IsData := by
  cases data with
  | list items => exact items
  | _ => exact nofun

theorem IsData.eq_map (data : value.IsData) (scope : value.isScope = true) :
    ∃ entries, value = .map entries := by
  cases data with
  | map => exact ⟨_, rfl⟩
  | _ => cases scope

/-- The entries of an object make up a spec with texts for keys and data for leaves. -/
theorem IsData.ofEntries (data : value.IsData) :
    ∀ entries, value = .map entries →
      (Spec.ofEntries entries).TextKeyed ∧
        ∀ leaf ∈ (Spec.ofEntries entries).leafValues, leaf.IsData := by
  -- The induction on the value reaches the scopes in it, and one on its entries what comes after.
  induction data with
  | @map entries names values distinct ih =>
    intro _ same
    cases same
    clear distinct
    induction entries with
    | nil => exact ⟨⟨.nil, rfl⟩, nofun⟩
    | cons entry rest further =>
      obtain ⟨key, value⟩ := entry
      obtain ⟨⟨name, rfl⟩, otherNames⟩ := List.forall_mem_cons.mp names
      obtain ⟨single, otherValues⟩ := List.forall_mem_cons.mp values
      obtain ⟨inside, others⟩ := List.forall_mem_cons.mp ih
      obtain ⟨keyed, leaves⟩ := further otherNames otherValues others
      have isText : ∃ text, (Value.text name).text? = some text := ⟨name, rfl⟩
      by_cases scope : value.isScope = true
      · obtain ⟨held, rfl⟩ := single.eq_map scope
        obtain ⟨below, within⟩ := inside held rfl
        exact ⟨Spec.textKeyed_scope.mpr ⟨isText, below, keyed⟩,
          List.forall_mem_append.mpr ⟨within, leaves⟩⟩
      · have plain : value.isScope = false := Bool.eq_false_iff.mpr scope
        simp only [Spec.ofEntries, Spec.ofEntry_of_not_scope plain]
        exact ⟨Spec.textKeyed_leaf.mpr ⟨isText, keyed⟩, List.forall_mem_cons.mpr ⟨single, leaves⟩⟩
  | _ => exact nofun

theorem IsData.spec? (data : value.IsData) {spec : Spec Value} (read : value.spec? = some spec) :
    spec.TextKeyed ∧ ∀ leaf ∈ spec.leafValues, leaf.IsData := by
  obtain ⟨entries, held, rfl⟩ := Option.map_eq_some_iff.mp read
  cases data with
  | map names values distinct =>
    cases held
    exact (IsData.map names values distinct).ofEntries _ rfl
  | _ => cases held

/-- Data that is a mapping at all has texts for keys. -/
theorem IsData.isTextMap (data : value.IsData) (mapping : value.spec?.isSome = true) :
    value.IsTextMap := by
  obtain ⟨spec, read⟩ := Option.isSome_iff_exists.mp mapping
  exact ⟨⟨spec, read, (data.spec? read).1⟩, data.hasDistinctKeys⟩

/-- No leaf of data converts, let alone that its conversion fails. -/
theorem IsData.answers (data : value.IsData) : ConversionsAnswer value.leafValues := by
  intro leaf member single among
  rw [leafValues] at member
  cases read : value.spec? with
  | none => simp [read] at member
  | some spec =>
    rw [read] at member
    have held := (data.spec? read).2 leaf member
    rcases List.mem_cons.mp among with rfl | inside
    · exact held.raises
    · exact (held.items single inside).raises

end Value

/-- What is read from a file, as a value that can be given. -/
def GivenValue.ofFile {text : List Char} {value : Value} (read : readJson text = .ok value) :
    GivenValue :=
  ⟨value, (isData_of_readJson read).hasDistinctKeys⟩

/-- What is read from a file that holds an object, as a mapping with texts for keys. -/
def TextMap.ofFile {text : List Char} {value : Value} (read : readJson text = .ok value)
    (mapping : value.spec?.isSome = true) : TextMap :=
  .ofValue value ((isData_of_readJson read).isTextMap mapping)

/-! ## Faults -/

variable {conventions : Conventions} {source : NameSource} {baseName : Value} {fault : Fault}

end ScopedStyle
