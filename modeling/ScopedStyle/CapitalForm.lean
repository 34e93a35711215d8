/-! Upper-casing a single character over all of Unicode, version 14. Most letters have one capital,
found by shifting a run of code points; a few are written with two or three capitals. -/
namespace ScopedStyle

/-- Code points from `first` to `last`, `step` apart, whose capitals lie `shift` further on. -/
structure CaseRun where
  first : Nat
  last : Nat
  step : Nat
  shift : Int

namespace CaseRun

/-- Membership of a code point in a run. -/
def covers (run : CaseRun) (code : Nat) : Bool :=
  run.first ≤ code && code ≤ run.last && (code - run.first) % run.step == 0

/-- The capital of a code point of the run. -/
def capital (run : CaseRun) (code : Nat) : Char :=
  Char.ofNat (code + run.shift).toNat

end CaseRun

/-- The letters with a single capital, in increasing order. -/
def caseRuns : List CaseRun := [
  ⟨97, 122, 1, -32⟩, ⟨181, 181, 1, 743⟩, ⟨224, 246, 1, -32⟩, ⟨248, 254, 1, -32⟩,
  ⟨255, 255, 1, 121⟩, ⟨257, 303, 2, -1⟩, ⟨305, 305, 1, -232⟩, ⟨307, 311, 2, -1⟩,
  ⟨314, 328, 2, -1⟩, ⟨331, 375, 2, -1⟩, ⟨378, 382, 2, -1⟩, ⟨383, 383, 1, -300⟩,
  ⟨384, 384, 1, 195⟩, ⟨387, 389, 2, -1⟩, ⟨392, 392, 1, -1⟩, ⟨396, 396, 1, -1⟩, ⟨402, 402, 1, -1⟩,
  ⟨405, 405, 1, 97⟩, ⟨409, 409, 1, -1⟩, ⟨410, 410, 1, 163⟩, ⟨414, 414, 1, 130⟩,
  ⟨417, 421, 2, -1⟩, ⟨424, 424, 1, -1⟩, ⟨429, 429, 1, -1⟩, ⟨432, 432, 1, -1⟩, ⟨436, 438, 2, -1⟩,
  ⟨441, 441, 1, -1⟩, ⟨445, 445, 1, -1⟩, ⟨447, 447, 1, 56⟩, ⟨453, 453, 1, -1⟩, ⟨454, 454, 1, -2⟩,
  ⟨456, 456, 1, -1⟩, ⟨457, 457, 1, -2⟩, ⟨459, 459, 1, -1⟩, ⟨460, 460, 1, -2⟩, ⟨462, 476, 2, -1⟩,
  ⟨477, 477, 1, -79⟩, ⟨479, 495, 2, -1⟩, ⟨498, 498, 1, -1⟩, ⟨499, 499, 1, -2⟩, ⟨501, 501, 1, -1⟩,
  ⟨505, 543, 2, -1⟩, ⟨547, 563, 2, -1⟩, ⟨572, 572, 1, -1⟩, ⟨575, 576, 1, 10815⟩,
  ⟨578, 578, 1, -1⟩, ⟨583, 591, 2, -1⟩, ⟨592, 592, 1, 10783⟩, ⟨593, 593, 1, 10780⟩,
  ⟨594, 594, 1, 10782⟩, ⟨595, 595, 1, -210⟩, ⟨596, 596, 1, -206⟩, ⟨598, 599, 1, -205⟩,
  ⟨601, 601, 1, -202⟩, ⟨603, 603, 1, -203⟩, ⟨604, 604, 1, 42319⟩, ⟨608, 608, 1, -205⟩,
  ⟨609, 609, 1, 42315⟩, ⟨611, 611, 1, -207⟩, ⟨613, 613, 1, 42280⟩, ⟨614, 614, 1, 42308⟩,
  ⟨616, 616, 1, -209⟩, ⟨617, 617, 1, -211⟩, ⟨618, 618, 1, 42308⟩, ⟨619, 619, 1, 10743⟩,
  ⟨620, 620, 1, 42305⟩, ⟨623, 623, 1, -211⟩, ⟨625, 625, 1, 10749⟩, ⟨626, 626, 1, -213⟩,
  ⟨629, 629, 1, -214⟩, ⟨637, 637, 1, 10727⟩, ⟨640, 640, 1, -218⟩, ⟨642, 642, 1, 42307⟩,
  ⟨643, 643, 1, -218⟩, ⟨647, 647, 1, 42282⟩, ⟨648, 648, 1, -218⟩, ⟨649, 649, 1, -69⟩,
  ⟨650, 651, 1, -217⟩, ⟨652, 652, 1, -71⟩, ⟨658, 658, 1, -219⟩, ⟨669, 669, 1, 42261⟩,
  ⟨670, 670, 1, 42258⟩, ⟨837, 837, 1, 84⟩, ⟨881, 883, 2, -1⟩, ⟨887, 887, 1, -1⟩,
  ⟨891, 893, 1, 130⟩, ⟨940, 940, 1, -38⟩, ⟨941, 943, 1, -37⟩, ⟨945, 961, 1, -32⟩,
  ⟨962, 962, 1, -31⟩, ⟨963, 971, 1, -32⟩, ⟨972, 972, 1, -64⟩, ⟨973, 974, 1, -63⟩,
  ⟨976, 976, 1, -62⟩, ⟨977, 977, 1, -57⟩, ⟨981, 981, 1, -47⟩, ⟨982, 982, 1, -54⟩,
  ⟨983, 983, 1, -8⟩, ⟨985, 1007, 2, -1⟩, ⟨1008, 1008, 1, -86⟩, ⟨1009, 1009, 1, -80⟩,
  ⟨1010, 1010, 1, 7⟩, ⟨1011, 1011, 1, -116⟩, ⟨1013, 1013, 1, -96⟩, ⟨1016, 1016, 1, -1⟩,
  ⟨1019, 1019, 1, -1⟩, ⟨1072, 1103, 1, -32⟩, ⟨1104, 1119, 1, -80⟩, ⟨1121, 1153, 2, -1⟩,
  ⟨1163, 1215, 2, -1⟩, ⟨1218, 1230, 2, -1⟩, ⟨1231, 1231, 1, -15⟩, ⟨1233, 1327, 2, -1⟩,
  ⟨1377, 1414, 1, -48⟩, ⟨4304, 4346, 1, 3008⟩, ⟨4349, 4351, 1, 3008⟩, ⟨5112, 5117, 1, -8⟩,
  ⟨7296, 7296, 1, -6254⟩, ⟨7297, 7297, 1, -6253⟩, ⟨7298, 7298, 1, -6244⟩, ⟨7299, 7300, 1, -6242⟩,
  ⟨7301, 7301, 1, -6243⟩, ⟨7302, 7302, 1, -6236⟩, ⟨7303, 7303, 1, -6181⟩, ⟨7304, 7304, 1, 35266⟩,
  ⟨7545, 7545, 1, 35332⟩, ⟨7549, 7549, 1, 3814⟩, ⟨7566, 7566, 1, 35384⟩, ⟨7681, 7829, 2, -1⟩,
  ⟨7835, 7835, 1, -59⟩, ⟨7841, 7935, 2, -1⟩, ⟨7936, 7943, 1, 8⟩, ⟨7952, 7957, 1, 8⟩,
  ⟨7968, 7975, 1, 8⟩, ⟨7984, 7991, 1, 8⟩, ⟨8000, 8005, 1, 8⟩, ⟨8017, 8023, 2, 8⟩,
  ⟨8032, 8039, 1, 8⟩, ⟨8048, 8049, 1, 74⟩, ⟨8050, 8053, 1, 86⟩, ⟨8054, 8055, 1, 100⟩,
  ⟨8056, 8057, 1, 128⟩, ⟨8058, 8059, 1, 112⟩, ⟨8060, 8061, 1, 126⟩, ⟨8112, 8113, 1, 8⟩,
  ⟨8126, 8126, 1, -7205⟩, ⟨8144, 8145, 1, 8⟩, ⟨8160, 8161, 1, 8⟩, ⟨8165, 8165, 1, 7⟩,
  ⟨8526, 8526, 1, -28⟩, ⟨8560, 8575, 1, -16⟩, ⟨8580, 8580, 1, -1⟩, ⟨9424, 9449, 1, -26⟩,
  ⟨11312, 11359, 1, -48⟩, ⟨11361, 11361, 1, -1⟩, ⟨11365, 11365, 1, -10795⟩,
  ⟨11366, 11366, 1, -10792⟩, ⟨11368, 11372, 2, -1⟩, ⟨11379, 11379, 1, -1⟩, ⟨11382, 11382, 1, -1⟩,
  ⟨11393, 11491, 2, -1⟩, ⟨11500, 11502, 2, -1⟩, ⟨11507, 11507, 1, -1⟩, ⟨11520, 11557, 1, -7264⟩,
  ⟨11559, 11559, 1, -7264⟩, ⟨11565, 11565, 1, -7264⟩, ⟨42561, 42605, 2, -1⟩,
  ⟨42625, 42651, 2, -1⟩, ⟨42787, 42799, 2, -1⟩, ⟨42803, 42863, 2, -1⟩, ⟨42874, 42876, 2, -1⟩,
  ⟨42879, 42887, 2, -1⟩, ⟨42892, 42892, 1, -1⟩, ⟨42897, 42899, 2, -1⟩, ⟨42900, 42900, 1, 48⟩,
  ⟨42903, 42921, 2, -1⟩, ⟨42933, 42947, 2, -1⟩, ⟨42952, 42954, 2, -1⟩, ⟨42961, 42961, 1, -1⟩,
  ⟨42967, 42969, 2, -1⟩, ⟨42998, 42998, 1, -1⟩, ⟨43859, 43859, 1, -928⟩,
  ⟨43888, 43967, 1, -38864⟩, ⟨65345, 65370, 1, -32⟩, ⟨66600, 66639, 1, -40⟩,
  ⟨66776, 66811, 1, -40⟩, ⟨66967, 66977, 1, -39⟩, ⟨66979, 66993, 1, -39⟩, ⟨66995, 67001, 1, -39⟩,
  ⟨67003, 67004, 1, -39⟩, ⟨68800, 68850, 1, -64⟩, ⟨71872, 71903, 1, -32⟩, ⟨93792, 93823, 1, -32⟩,
  ⟨125218, 125251, 1, -34⟩]

/-- The letters whose capital form takes several characters. -/
def longCapitals : List (Char × String) := [
  ('\u00df', "SS"), ('\u0149', "\u02bcN"), ('\u01f0', "J\u030c"),
  ('\u0390', "\u0399\u0308\u0301"), ('\u03b0', "\u03a5\u0308\u0301"), ('\u0587', "\u0535\u0552"),
  ('\u1e96', "H\u0331"), ('\u1e97', "T\u0308"), ('\u1e98', "W\u030a"), ('\u1e99', "Y\u030a"),
  ('\u1e9a', "A\u02be"), ('\u1f50', "\u03a5\u0313"), ('\u1f52', "\u03a5\u0313\u0300"),
  ('\u1f54', "\u03a5\u0313\u0301"), ('\u1f56', "\u03a5\u0313\u0342"), ('\u1f80', "\u1f08\u0399"),
  ('\u1f81', "\u1f09\u0399"), ('\u1f82', "\u1f0a\u0399"), ('\u1f83', "\u1f0b\u0399"),
  ('\u1f84', "\u1f0c\u0399"), ('\u1f85', "\u1f0d\u0399"), ('\u1f86', "\u1f0e\u0399"),
  ('\u1f87', "\u1f0f\u0399"), ('\u1f88', "\u1f08\u0399"), ('\u1f89', "\u1f09\u0399"),
  ('\u1f8a', "\u1f0a\u0399"), ('\u1f8b', "\u1f0b\u0399"), ('\u1f8c', "\u1f0c\u0399"),
  ('\u1f8d', "\u1f0d\u0399"), ('\u1f8e', "\u1f0e\u0399"), ('\u1f8f', "\u1f0f\u0399"),
  ('\u1f90', "\u1f28\u0399"), ('\u1f91', "\u1f29\u0399"), ('\u1f92', "\u1f2a\u0399"),
  ('\u1f93', "\u1f2b\u0399"), ('\u1f94', "\u1f2c\u0399"), ('\u1f95', "\u1f2d\u0399"),
  ('\u1f96', "\u1f2e\u0399"), ('\u1f97', "\u1f2f\u0399"), ('\u1f98', "\u1f28\u0399"),
  ('\u1f99', "\u1f29\u0399"), ('\u1f9a', "\u1f2a\u0399"), ('\u1f9b', "\u1f2b\u0399"),
  ('\u1f9c', "\u1f2c\u0399"), ('\u1f9d', "\u1f2d\u0399"), ('\u1f9e', "\u1f2e\u0399"),
  ('\u1f9f', "\u1f2f\u0399"), ('\u1fa0', "\u1f68\u0399"), ('\u1fa1', "\u1f69\u0399"),
  ('\u1fa2', "\u1f6a\u0399"), ('\u1fa3', "\u1f6b\u0399"), ('\u1fa4', "\u1f6c\u0399"),
  ('\u1fa5', "\u1f6d\u0399"), ('\u1fa6', "\u1f6e\u0399"), ('\u1fa7', "\u1f6f\u0399"),
  ('\u1fa8', "\u1f68\u0399"), ('\u1fa9', "\u1f69\u0399"), ('\u1faa', "\u1f6a\u0399"),
  ('\u1fab', "\u1f6b\u0399"), ('\u1fac', "\u1f6c\u0399"), ('\u1fad', "\u1f6d\u0399"),
  ('\u1fae', "\u1f6e\u0399"), ('\u1faf', "\u1f6f\u0399"), ('\u1fb2', "\u1fba\u0399"),
  ('\u1fb3', "\u0391\u0399"), ('\u1fb4', "\u0386\u0399"), ('\u1fb6', "\u0391\u0342"),
  ('\u1fb7', "\u0391\u0342\u0399"), ('\u1fbc', "\u0391\u0399"), ('\u1fc2', "\u1fca\u0399"),
  ('\u1fc3', "\u0397\u0399"), ('\u1fc4', "\u0389\u0399"), ('\u1fc6', "\u0397\u0342"),
  ('\u1fc7', "\u0397\u0342\u0399"), ('\u1fcc', "\u0397\u0399"), ('\u1fd2', "\u0399\u0308\u0300"),
  ('\u1fd3', "\u0399\u0308\u0301"), ('\u1fd6', "\u0399\u0342"), ('\u1fd7', "\u0399\u0308\u0342"),
  ('\u1fe2', "\u03a5\u0308\u0300"), ('\u1fe3', "\u03a5\u0308\u0301"), ('\u1fe4', "\u03a1\u0313"),
  ('\u1fe6', "\u03a5\u0342"), ('\u1fe7', "\u03a5\u0308\u0342"), ('\u1ff2', "\u1ffa\u0399"),
  ('\u1ff3', "\u03a9\u0399"), ('\u1ff4', "\u038f\u0399"), ('\u1ff6', "\u03a9\u0342"),
  ('\u1ff7', "\u03a9\u0342\u0399"), ('\u1ffc', "\u03a9\u0399"), ('\ufb00', "FF"),
  ('\ufb01', "FI"), ('\ufb02', "FL"), ('\ufb03', "FFI"), ('\ufb04', "FFL"), ('\ufb05', "ST"),
  ('\ufb06', "ST"), ('\ufb13', "\u0544\u0546"), ('\ufb14', "\u0544\u0535"),
  ('\ufb15', "\u0544\u053b"), ('\ufb16', "\u054e\u0546"), ('\ufb17', "\u0544\u053d")]

/-- The capital form of a character: itself if it has no other. -/
def capitalForm (c : Char) : List Char :=
  match longCapitals.find? fun entry => entry.1 == c with
  | some entry => entry.2.toList
  | none =>
    match caseRuns.find? fun run => run.covers c.toNat with
    | some run => [run.capital c.toNat]
    | none => [c]

/-- A capital form takes one to three characters. -/
theorem length_capitalForm (c : Char) :
    0 < (capitalForm c).length ∧ (capitalForm c).length ≤ 3 := by
  have long : ∀ entry ∈ longCapitals, 0 < entry.2.toList.length ∧ entry.2.toList.length ≤ 3 := by
    decide +kernel
  unfold capitalForm
  split
  · next entry found => exact long entry (List.mem_of_find?_eq_some found)
  · split <;> simp

/-- A text with its first character in capital form. -/
def capitalizeFirst (text : String) : String :=
  match text.toList with
  | [] => ""
  | first :: rest => String.ofList (capitalForm first ++ rest)

end ScopedStyle
