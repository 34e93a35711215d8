import Mathlib.Data.List.DropRight
import ScopedStyle.Proofs.SelectorLookups

/-! The selectors of a variant as splits of its path. There is one for each place from which on all
segments are recognized, and one for the whole path. Where native selectors begin with a colon and the
separator does not, no two of these are written alike: the shorter class is followed by a colon at the
place where the longer one goes on with the separator. -/
namespace ScopedStyle.PseudoClasses

/-- The selector that has a class for the segments before a split and the native selectors of those
behind it. -/
def selectorAt (table : PseudoClasses) (separator root : String) (path : List String) (split : Nat) :
    String :=
  "." ++ modifierClass separator root (path.take split) ++
    String.join ((path.drop split).filterMap table.selector?)

/-- The splits of a path that have a selector: the one behind the whole path, and then from the front
those behind which all segments are recognized. -/
def nativeSplits (table : PseudoClasses) (path : List String) : List Nat :=
  path.length :: (List.range path.length).filter fun split => (path.drop split).all table.isRecognized

variable {table : PseudoClasses} {separator root : String} {path : List String}

/-! ## Splits with a selector -/

private theorem filterMap_ite {α β : Type} (admits : α → Bool) (f : α → β) (items : List α) :
    (items.filterMap fun item => if admits item then some (f item) else none) =
      (items.filter admits).map f := by
  induction items with
  | nil => rfl
  | cons item rest ih => by_cases admitted : admits item <;> simp [admitted, ih]

/-- Before what is written alike is dropped, there is one selector for each split that has one. -/
theorem selectors_eq_splits (table : PseudoClasses) (separator root : String) (path : List String) :
    ("." ++ modifierClass separator root path) :: table.splitSelectors separator root path =
      (table.nativeSplits path).map (table.selectorAt separator root path) := by
  have whole : table.selectorAt separator root path path.length =
      "." ++ modifierClass separator root path := by simp [selectorAt]
  have splits : table.splitSelectors separator root path =
      ((List.range path.length).filter fun split => (path.drop split).all table.isRecognized).map
        (table.selectorAt separator root path) := by
    rw [splitSelectors_eq, ← filterMap_ite]
    refine List.filterMap_congr fun split _ => ?_
    rw [nativeSuffix?_eq]
    by_cases native : (path.drop split).all table.isRecognized <;> simp [native, selectorAt]
  rw [nativeSplits, List.map_cons, whole, splits]

/-- There are as many splits behind which all segments are recognized as there are segments at the end of
the path that are recognized. -/
theorem length_nativeSplits (table : PseudoClasses) (path : List String) :
    (table.nativeSplits path).length = 1 + (path.rtakeWhile table.isRecognized).length := by
  rw [nativeSplits, List.length_cons, Nat.add_comm, Nat.add_left_cancel_iff]
  induction path using List.reverseRecOn with
  | nil => rfl
  | append_singleton path last ih =>
    have before (split : Nat) (member : split ∈ List.range path.length) :
        ((path ++ [last]).drop split).all table.isRecognized =
          ((path.drop split).all table.isRecognized && table.isRecognized last) := by
      rw [List.drop_append_of_le_length (List.mem_range.mp member).le]
      simp
    have here : ((path ++ [last]).drop path.length).all table.isRecognized =
        table.isRecognized last := by simp
    rw [List.length_append, List.length_singleton, List.range_succ, List.filter_append,
      List.filter_congr before, List.filter_singleton, here]
    by_cases recognized : table.isRecognized last = true
    · rw [List.rtakeWhile_concat_pos _ _ _ recognized]
      simp [recognized, ih]
    · rw [List.rtakeWhile_concat_neg _ _ _ recognized]
      simp [recognized]

/-! ## Selectors that differ -/

/-- Native selectors begin with a colon. -/
def HasColons (table : PseudoClasses) : Prop :=
  ∀ name selector, table.selector? name = some selector → selector.toList.head? = some ':'

theorem hasColons_of_entries
    (colons : ∀ entry ∈ table.entries, entry.2.toList.head? = some ':') : table.HasColons := by
  intro name selector found
  rw [selector?, List.lookup_eq_some_iff] at found
  obtain ⟨before, after, split, _⟩ := found
  exact colons (name, selector) (by simp [split])

/-- Where there is a recognized segment, what stands behind the class begins with a colon. -/
private theorem head?_natives (colons : table.HasColons) {segment : String} {rest : List String}
    (recognized : table.isRecognized segment = true) :
    (String.join ((segment :: rest).filterMap table.selector?)).toList.head? = some ':' := by
  obtain ⟨selector, found⟩ := Option.isSome_iff_exists.mp recognized
  rw [List.filterMap_cons, found, String.join_cons, String.toList_append, List.head?_append,
    colons segment selector found]
  rfl

/-- A class for more segments goes on with the separator, where the one for fewer is over. -/
private theorem modifierClass_take (separator root : String) {path : List String}
    {fewer more : Nat} (before : fewer < more) (within : more ≤ path.length) :
    ∃ rest, modifierClass separator root (path.take more) =
      modifierClass separator root (path.take fewer) ++ (separator ++ rest) := by
  obtain ⟨further, rfl⟩ : ∃ further, more = fewer + (further + 1) := ⟨more - fewer - 1, by omega⟩
  obtain ⟨segment, others, split⟩ : ∃ segment others, path.drop fewer = segment :: others :=
    List.exists_cons_of_length_pos (by rw [List.length_drop]; omega)
  refine ⟨segment ++ modifierClass separator "" (others.take further), ?_⟩
  rw [List.take_add, split, List.take_succ_cons, modifierClass_append, modifierClass_cons,
    modifierClass_root]
  simp only [String.append_assoc]

/-- Two splits give different selectors: what follows the class for fewer segments is a colon in the
one and the separator in the other. -/
theorem selectorAt_ne (colons : table.HasColons) (separates : separator ≠ "")
    (plain : separator.toList.head? ≠ some ':') {fewer more : Nat} (before : fewer < more)
    (within : more ≤ path.length) (native : (path.drop fewer).all table.isRecognized = true) :
    table.selectorAt separator root path fewer ≠ table.selectorAt separator root path more := by
  obtain ⟨segment, others, split⟩ : ∃ segment others, path.drop fewer = segment :: others :=
    List.exists_cons_of_length_pos (by rw [List.length_drop]; omega)
  obtain ⟨rest, longer⟩ := modifierClass_take separator root before within
  have recognized : table.isRecognized segment = true := by
    rw [split, List.all_cons, Bool.and_eq_true] at native
    exact native.1
  obtain ⟨first, further, begins⟩ : ∃ first further, separator.toList = first :: further :=
    List.exists_cons_of_ne_nil fun empty => separates (String.toList_inj.mp empty)
  intro same
  have characters := congrArg String.toList same
  simp only [selectorAt, longer, String.toList_append, List.append_assoc, List.append_cancel_left_eq]
    at characters
  have heads := congrArg List.head? characters
  rw [split, head?_natives colons recognized, begins] at heads
  exact plain (by rw [begins]; exact heads.symm)

theorem nodup_selectors (colons : table.HasColons) (separates : separator ≠ "")
    (plain : separator.toList.head? ≠ some ':') (root : String) (path : List String) :
    ((table.nativeSplits path).map (table.selectorAt separator root path)).Nodup := by
  rw [nativeSplits, List.map_cons, List.nodup_cons]
  constructor
  · intro member
    obtain ⟨split, among, same⟩ := List.mem_map.mp member
    obtain ⟨before, native⟩ := List.mem_filter.mp among
    exact selectorAt_ne colons separates plain (List.mem_range.mp before) (Nat.le_refl _) native same
  · have ordered : ((List.range path.length).filter fun split =>
        (path.drop split).all table.isRecognized).Pairwise (· < ·) :=
      List.pairwise_lt_range.filter _
    refine List.pairwise_map.mpr (ordered.imp_of_mem fun {fewer more} first second before => ?_)
    obtain ⟨_, native⟩ := List.mem_filter.mp first
    obtain ⟨within, _⟩ := List.mem_filter.mp second
    exact selectorAt_ne colons separates plain before (List.mem_range.mp within).le native

private theorem eraseDups_of_nodup {items : List String} (differ : items.Nodup) :
    items.eraseDups = items := by
  induction items with
  | nil => rfl
  | cons first rest ih =>
    obtain ⟨absent, others⟩ := List.nodup_cons.mp differ
    have kept : rest.filter (fun item => !item == first) = rest := by
      refine List.filter_eq_self.mpr fun item member => ?_
      have other : item ≠ first := fun same => absent (same ▸ member)
      simpa using other
    rw [List.eraseDups_cons, kept, ih others]

/-- **The selectors of a variant are its native splits.** No look-up of a native selector fails, and the
selectors are those of the splits behind which all segments are recognized, the one with the class of the
whole path first and the others with ever more segments in the class; of those written alike the first is
kept. So it is in the rule of every scope of a style. If native selectors begin with a colon and the
separator is not empty and does not, then no two are written alike: there is one selector for the whole
path, and one more for each of the segments that are recognized at its end. -/
theorem selectors_are_native_splits (table : PseudoClasses) (separator root : String)
    (path : List String) :
    table.lookedUpSelectors separator root path =
        .ok (table.variantSelectors separator root path) ∧
      table.variantSelectors separator root path =
        ((table.nativeSplits path).map (table.selectorAt separator root path)).eraseDups ∧
      (∀ (conventions : Conventions) (style : Style), conventions.Makes style →
        ∀ node ∈ style.root.preorder, node.rule.selectors =
          conventions.pseudoClasses.variantSelectors conventions.separator style.name node.path) ∧
      (table.HasColons → separator ≠ "" → separator.toList.head? ≠ some ':' →
        table.variantSelectors separator root path =
            (table.nativeSplits path).map (table.selectorAt separator root path) ∧
          (table.variantSelectors separator root path).Nodup ∧
          (table.variantSelectors separator root path).length =
            1 + (path.rtakeWhile table.isRecognized).length) := by
  have splits : table.variantSelectors separator root path =
      ((table.nativeSplits path).map (table.selectorAt separator root path)).eraseDups := by
    rw [variantSelectors, selectors_eq_splits]
  refine ⟨lookedUpSelectors_eq table separator root path, splits,
    fun conventions style made node member => (made.node_of_scope member).2.2, ?_⟩
  intro colons separates plain
  have differ := nodup_selectors colons separates plain root path
  rw [splits, eraseDups_of_nodup differ]
  exact ⟨rfl, differ, by rw [List.length_map, length_nativeSplits]⟩

/-- In the standard table and below two dashes, a path that ends in two recognized names has three
selectors. -/
theorem selectors_are_native_splits_of_standard :
    standard.HasColons ∧
      (standard.variantSelectors "--" "A_x1" ["on", "firstChild", "hover"]).Nodup ∧
      (standard.variantSelectors "--" "A_x1" ["on", "firstChild", "hover"]).length = 3 := by
  have colons : standard.HasColons := hasColons_of_entries (by decide)
  obtain ⟨_, _, _, differ⟩ :=
    selectors_are_native_splits standard "--" "A_x1" ["on", "firstChild", "hover"]
  obtain ⟨_, distinct, number⟩ := differ colons (by decide) (by decide)
  exact ⟨colons, distinct, number.trans (by decide)⟩

end ScopedStyle.PseudoClasses
