import FrameCheck.Files.Tree
import FrameCheck.Fixture.Discovery
import Mathlib.Data.List.Dedup
import Mathlib.Data.List.SplitBy

/-!
# Test names of fixtures

The name of a test is `test` and the words of a path, each behind an underscore. A word is a run of
letters and digits in the name of a file or a directory, cut before each capital behind a small
letter or a digit, and written small; a name that ends with another character has an empty word at
its end. So two fixtures have the same test exactly if their paths have the same words, whatever
stands between them : `a-b`, `a_b`, `aB` and `a/b` are all one name.

The coverage of a directory compares the names alone. Where it finds nothing missing, there are as
many tests as fixtures exactly if no two fixtures have the same words.

* `Path.words`, `testName_eq_iff` : what a test name tells of a path.
* `coverage_eq_ok_iff` : when a list of tests covers fixtures.
* `tests_of_coverage` : how many fixtures share a test.
-/

namespace FrameCheck

namespace TestName

/-! ## Words -/

/-- Whether the character is a small letter or a digit. -/
def isSmall (c : Char) : Bool := c.isLower || c.isDigit

/-- Whether a run goes on from a character to the next one. -/
def runsOn (a b : Char) : Bool := a.isAlphanum == b.isAlphanum && !(b.isUpper && isSmall a)

/-- The words of the name of a file or a directory. -/
def wordsOf (cs : List Char) : List (List Char) :=
  ((cs.splitBy runsOn).filter (·.all Char.isAlphanum)).map (·.map Char.toLower) ++
    if cs.getLast?.all (!·.isAlphanum) then [[]] else []

/-- Words, each behind an underscore. -/
def spelled (words : List (List Char)) : List Char := words.flatMap ('_' :: ·)

theorem toLower_ne_underscore {c : Char} (hc : c.isAlphanum) : c.toLower ≠ '_' := by
  intro h
  unfold Char.toLower at h
  split at h
  · rename_i hupper
    have hval : c.val + ('a'.val - 'A'.val) = '_'.val := congrArg Char.val h
    have hfrom : 'A'.val.toNat ≤ c.val.toNat := UInt32.le_iff_toNat_le.1 hupper.1
    have hto : c.val.toNat ≤ 'Z'.val.toNat := UInt32.le_iff_toNat_le.1 hupper.2
    have hsum := congrArg UInt32.toNat hval
    rw [UInt32.toNat_add] at hsum
    change (c.val.toNat + 32) % 2 ^ 32 = 95 at hsum
    change 65 ≤ c.val.toNat at hfrom
    change c.val.toNat ≤ 90 at hto
    omega
  · exact absurd (h ▸ hc) (by decide)

theorem isAlphanum_of_runsOn {a b : Char} (h : runsOn a b) : a.isAlphanum = b.isAlphanum := by
  rw [runsOn, Bool.and_eq_true, beq_iff_eq] at h
  exact h.1

/-! ### Runs -/

/-- A run that goes on from a character to a list goes on into the first run of the list. -/
theorem splitBy_cons_cons {r : Char → Char → Bool} {a b : Char} (h : r a b) (cs : List Char) :
    ∃ run runs, (b :: cs).splitBy r = (b :: run) :: runs ∧
      (a :: b :: cs).splitBy r = (a :: b :: run) :: runs := by
  cases hruns : (b :: cs).splitBy r with
  | nil => exact absurd (List.splitBy_eq_nil.1 hruns) (List.cons_ne_nil b cs)
  | cons first runs =>
    obtain ⟨hflat, hnil, hchain, hcut⟩ := List.splitBy_eq_iff.1 hruns
    cases first with
    | nil => exact absurd List.mem_cons_self hnil
    | cons b' run =>
      obtain ⟨rfl, hcs⟩ := List.cons.inj hflat
      refine ⟨run, runs, rfl, List.splitBy_eq_iff.2 ⟨by simp [hcs], ?_, ?_, ?_⟩⟩
      · simpa using hnil
      · intro m hm
        obtain rfl | hm := List.mem_cons.1 hm
        · exact List.isChain_cons_cons.2 ⟨h, hchain _ List.mem_cons_self⟩
        · exact hchain m (List.mem_cons_of_mem _ hm)
      · rw [List.isChain_cons] at hcut ⊢
        exact ⟨fun y hy => by simpa using hcut.1 y hy, hcut.2⟩

/-- A run that starts with a letter or a digit has no other characters. -/
theorem all_isAlphanum_of_isChain : ∀ {c : Char} {run : List Char},
    (c :: run).IsChain (fun a b => runsOn a b) → c.isAlphanum → (c :: run).all Char.isAlphanum
  | c, [], _, hc => by simp [hc]
  | c, d :: run, h, hc => by
    obtain ⟨hcd, hrun⟩ := List.isChain_cons_cons.1 h
    rw [List.all_cons, hc, Bool.true_and]
    exact all_isAlphanum_of_isChain hrun (isAlphanum_of_runsOn hcd ▸ hc)

/-! ### Words, character by character -/

theorem wordsOf_nil : wordsOf [] = [[]] := by
  simp [wordsOf]

theorem wordsOf_singleton {c : Char} (hc : c.isAlphanum) : wordsOf [c] = [[c.toLower]] := by
  have hruns : [c].splitBy runsOn = [[c]] := rfl
  simp [wordsOf, hruns, hc]

/-- A word ends where a run ends. -/
theorem wordsOf_cons_cons_of_not_runsOn {a b : Char} (ha : a.isAlphanum) (h : ¬runsOn a b)
    (cs : List Char) : wordsOf (a :: b :: cs) = [a.toLower] :: wordsOf (b :: cs) := by
  have hruns : (a :: b :: cs).splitBy runsOn = [a] :: (b :: cs).splitBy runsOn :=
    List.splitBy_append_cons (l := [a]) cs (by simpa using h)
  simp [wordsOf, hruns, ha]

/-- A word goes on as long as its run does. -/
theorem wordsOf_cons_cons_of_runsOn {a b : Char} (ha : a.isAlphanum) (h : runsOn a b)
    (cs : List Char) : ∃ word words, wordsOf (b :: cs) = word :: words ∧
      wordsOf (a :: b :: cs) = (a.toLower :: word) :: words := by
  obtain ⟨run, runs, hb, hab⟩ := splitBy_cons_cons h cs
  have hchain := List.isChain_of_mem_splitBy (hb ▸ List.mem_cons_self)
  have hall := all_isAlphanum_of_isChain hchain (isAlphanum_of_runsOn h ▸ ha)
  have hall' : (a :: b :: run).all Char.isAlphanum := by rw [List.all_cons, ha, hall, Bool.true_and]
  simp only [wordsOf, hb, hab, List.filter_cons, hall, hall', if_true, List.map_cons,
    List.cons_append, List.getLast?_cons_cons]
  exact ⟨_, _, rfl, rfl⟩

/-- Other characters only part words. -/
theorem wordsOf_cons_of_not_isAlphanum {c : Char} (hc : ¬c.isAlphanum) (cs : List Char) :
    wordsOf (c :: cs) = wordsOf cs := by
  have hc' : c.isAlphanum = false := Bool.eq_false_iff.2 hc
  cases cs with
  | nil =>
    have hruns : [c].splitBy runsOn = [[c]] := rfl
    simp [wordsOf, hruns, hc']
  | cons d cs =>
    by_cases h : runsOn c d
    · obtain ⟨run, runs, hd, hcd⟩ := splitBy_cons_cons h cs
      have hd' : d.isAlphanum = false := isAlphanum_of_runsOn h ▸ hc'
      simp [wordsOf, hd, hcd, hc', hd']
    · have hruns : (c :: d :: cs).splitBy runsOn = [c] :: (d :: cs).splitBy runsOn :=
        List.splitBy_append_cons (l := [c]) cs (by simpa using h)
      simp [wordsOf, hruns, hc']

theorem underscore_notMem_of_mem_wordsOf {cs word : List Char} (h : word ∈ wordsOf cs) :
    '_' ∉ word := by
  rw [wordsOf, List.mem_append] at h
  obtain h | h := h
  · obtain ⟨run, hrun, rfl⟩ := List.mem_map.1 h
    intro hmem
    obtain ⟨c, hc, hlower⟩ := List.mem_map.1 hmem
    exact toLower_ne_underscore (List.all_eq_true.1 (List.mem_filter.1 hrun).2 c hc) hlower
  · split at h
    · rw [List.mem_singleton.1 h]
      exact List.not_mem_nil
    · exact absurd h List.not_mem_nil

/-! ## The name that words spell -/

theorem spelled_cons (word : List Char) (words : List (List Char)) :
    spelled (word :: words) = '_' :: word ++ spelled words := List.flatMap_cons

theorem appendWords_of_isAlphanum {c : Char} (hc : c.isAlphanum) (name : List Char)
    (afterSmall : Bool) (cs : List Char) : appendWords name afterSmall (c :: cs) =
      appendWords (c.toLower :: if c.isUpper && afterSmall then '_' :: name else name)
        (isSmall c) cs := by
  rw [appendWords, if_pos hc]
  rfl

/-- Other characters write one underscore, whatever was before them. -/
theorem appendWords_of_not_isAlphanum {c : Char} (hc : ¬c.isAlphanum) (name : List Char)
    (afterSmall : Bool) (cs : List Char) : appendWords name afterSmall (c :: cs) =
      appendWords (if name.head? = some '_' then name else '_' :: name) false cs := by
  rw [appendWords, if_neg hc]

/-- Behind an underscore the name goes on with the words of what is read, and inside of a word with
the rest of the word and the words behind it. -/
theorem appendWords_spelled (cs : List Char) :
    (∀ name, appendWords ('_' :: name) false cs = (spelled (wordsOf cs)).reverse ++ name) ∧
    ∀ a : Char, a.isAlphanum → ∃ rest, spelled (wordsOf (a :: cs)) = '_' :: a.toLower :: rest ∧
      ∀ name, appendWords (a.toLower :: name) (isSmall a) cs =
        rest.reverse ++ a.toLower :: name := by
  induction cs with
  | nil =>
    refine ⟨fun name => by simp [appendWords, wordsOf_nil, spelled], fun a ha => ⟨[], ?_, ?_⟩⟩
    · rw [wordsOf_singleton ha]
      rfl
    · exact fun name => rfl
  | cons b cs ih =>
    obtain ⟨ihBehind, ihInside⟩ := ih
    by_cases hb : b.isAlphanum
    · obtain ⟨rest, hrest, hname⟩ := ihInside b hb
      simp only [appendWords_of_isAlphanum hb]
      refine ⟨fun name => ?_, fun a ha => ?_⟩
      · rw [Bool.and_false, hrest]
        simpa using hname ('_' :: name)
      · by_cases hcut : b.isUpper && isSmall a
        · -- A capital behind a small letter or a digit: the word ends before it.
          refine ⟨'_' :: b.toLower :: rest, ?_, fun name => ?_⟩
          · rw [wordsOf_cons_cons_of_not_runsOn ha (by simp [runsOn, hcut]), spelled_cons, hrest]
            rfl
          · rw [if_pos hcut, hname]
            simp
        · have hruns : runsOn a b := by simp [runsOn, hcut, ha, hb]
          obtain ⟨word, words, hwords, hmore⟩ := wordsOf_cons_cons_of_runsOn ha hruns cs
          rw [hwords, spelled_cons] at hrest
          refine ⟨b.toLower :: rest, ?_, fun name => ?_⟩
          · rw [hmore, spelled_cons]
            simpa using hrest
          · rw [if_neg hcut, hname]
            simp
    · simp only [appendWords_of_not_isAlphanum hb, wordsOf_cons_of_not_isAlphanum hb]
      refine ⟨ihBehind, fun a ha => ⟨spelled (wordsOf cs), ?_, fun name => ?_⟩⟩
      · have hruns : ¬runsOn a b := by simp [runsOn, ha, hb]
        rw [wordsOf_cons_cons_of_not_runsOn ha hruns, wordsOf_cons_of_not_isAlphanum hb,
          spelled_cons]
        rfl
      · rw [if_neg (by simpa using toLower_ne_underscore ha)]
        exact ihBehind (a.toLower :: name)

theorem foldl_appendWords : ∀ (parts : List (List Char)) (name : List Char),
    parts.foldl (fun name cs => appendWords ('_' :: name) false cs) name =
      (spelled (parts.flatMap wordsOf)).reverse ++ name
  | [], name => rfl
  | cs :: parts, name => by
    rw [List.foldl_cons, (appendWords_spelled cs).1, foldl_appendWords parts]
    simp [spelled]

/-! ## The words that a name spells -/

/-- The first word ends where the next underscore is. -/
theorem takeWhile_word {word : List Char} (h : '_' ∉ word) (words : List (List Char)) :
    (word ++ spelled words).takeWhile (· != '_') = word := by
  have hbehind : (spelled words).takeWhile (· != '_') = [] := by
    cases words <;> simp [spelled]
  rw [List.takeWhile_append_of_pos, hbehind, List.append_nil]
  exact fun c hc => bne_iff_ne.2 fun hunderscore => h (hunderscore ▸ hc)

theorem spelled_inj : ∀ {ws vs : List (List Char)}, (∀ w ∈ ws, '_' ∉ w) → (∀ v ∈ vs, '_' ∉ v) →
    spelled ws = spelled vs → ws = vs
  | [], [], _, _, _ => rfl
  | [], v :: vs, _, _, h => absurd h (by simp [spelled])
  | w :: ws, [], _, _, h => absurd h (by simp [spelled])
  | w :: ws, v :: vs, hws, hvs, h => by
    obtain ⟨hw, hws'⟩ := List.forall_mem_cons.1 hws
    obtain ⟨hv, hvs'⟩ := List.forall_mem_cons.1 hvs
    rw [spelled_cons, spelled_cons, List.cons_append, List.cons_append] at h
    have hrest := (List.cons.inj h).2
    have hword : w = v := by rw [← takeWhile_word hw ws, hrest, takeWhile_word hv vs]
    subst hword
    exact congrArg (w :: ·) (spelled_inj hws' hvs' (List.append_cancel_left hrest))

end TestName

/-! ## Paths of the same words -/

/-- The words of a path, the extension left out. -/
def Path.words (p : Path) : List (List Char) :=
  p.withoutExtension.components.flatMap fun c => TestName.wordsOf c.text.toList

theorem testName_eq_spelled (p : Path) :
    testName p = String.ofList ("test".toList ++ TestName.spelled p.words) := by
  rw [testName, TestName.foldl_appendWords, Path.words]
  simp [List.flatMap_map]

theorem Path.underscore_notMem_of_mem_words {p : Path} {word : List Char} (h : word ∈ p.words) :
    '_' ∉ word := by
  obtain ⟨c, -, hword⟩ := List.mem_flatMap.1 h
  exact TestName.underscore_notMem_of_mem_wordsOf hword

/-- Two paths have the same test exactly if they have the same words. -/
theorem testName_eq_iff {p q : Path} : testName p = testName q ↔ p.words = q.words := by
  rw [testName_eq_spelled, testName_eq_spelled, String.ofList_inj, List.append_cancel_left_eq]
  have hfree : ∀ p : Path, ∀ word ∈ p.words, '_' ∉ word :=
    fun _ _ => Path.underscore_notMem_of_mem_words
  exact ⟨TestName.spelled_inj (hfree p) (hfree q), fun h => h ▸ rfl⟩

/-! ## Coverage -/

theorem mem_sortedOnce {l : List String} {x : String} : x ∈ sortedOnce l ↔ x ∈ l := by
  rw [sortedOnce, List.mem_eraseDups, List.mem_mergeSort]

/-- Nothing is missing exactly if the tests are the names of the fixtures. -/
theorem coverage_eq_ok_iff {fixtures : List Fixture} {tests : List String} :
    coverage fixtures tests = .ok () ↔
      ∀ name, name ∈ tests ↔ name ∈ fixtures.map Fixture.name := by
  have hmissing : ∀ l l' : List String,
      ((sortedOnce l).filter fun n => !l'.contains n).isEmpty ↔ ∀ n ∈ l, n ∈ l' := by
    intro l l'
    simp [List.isEmpty_iff, List.filter_eq_nil_iff, mem_sortedOnce]
  unfold coverage
  simp only [Bool.and_eq_true, hmissing]
  split
  · rename_i hboth
    exact iff_of_true rfl fun name => ⟨hboth.2 name, hboth.1 name⟩
  · rename_i hone
    exact iff_of_false nofun fun h => hone ⟨fun n hn => (h n).2 hn, fun n hn => (h n).1 hn⟩

/-- A list without repetitions is as long as another one with the same members exactly if there
are no repetitions in that one. -/
theorem length_eq_iff_nodup {α : Type} [DecidableEq α] {tests names : List α} (h : tests.Nodup)
    (hmem : ∀ name, name ∈ tests ↔ name ∈ names) :
    tests.length ≤ names.length ∧ (names.length = tests.length ↔ names.Nodup) := by
  have hperm : tests.Perm names.dedup := (List.perm_ext_iff_of_nodup h names.nodup_dedup).2
    fun name => (hmem name).trans List.mem_dedup.symm
  have hsublist := names.dedup_sublist
  rw [hperm.length_eq]
  refine ⟨hsublist.length_le, fun hlength => ?_, fun hnodup => ?_⟩
  · rw [← hsublist.eq_of_length hlength.symm]
    exact names.nodup_dedup
  · rw [hnodup.dedup]

/-- The paths from a directory to the fixtures among places below it. -/
def pathsAmong (dir : Path) (places : List (List String)) : List Path :=
  (places.filter fun names => (names.foldl Path.join dir).extension? = some "kt").map
    fun names => Path.ofText ("/".intercalate names)

/-- The paths from a directory to the fixtures in it, in the order of the fixtures. -/
def FileTree.fixturePaths (t : FileTree) (dir : Path) : List Path :=
  pathsAmong dir ((t.walk dir).mergeSort comesBefore)

theorem FileTree.fixturePaths_of_walk {t : FileTree} {dir : Path} {places : List (List String)}
    (hwalk : t.walk dir = places) (hsorted : places.Pairwise fun a b => comesBefore a b) :
    t.fixturePaths dir = pathsAmong dir places := by
  rw [fixturePaths, hwalk, List.mergeSort_of_pairwise hsorted]

theorem names_filterMap_ofNames (dir : Path) : ∀ places : List (List String),
    (places.filterMap (Fixture.ofNames? dir)).map Fixture.name =
      (pathsAmong dir places).map testName
  | [] => rfl
  | names :: places => by
    have ih := names_filterMap_ofNames dir places
    unfold pathsAmong at ih ⊢
    by_cases h : (names.foldl Path.join dir).extension? = some "kt" <;>
      simp [Fixture.ofNames?, h, ih]

theorem names_discover (t : FileTree) (dir : Path) :
    (discover t.access dir).map Fixture.name = (t.fixturePaths dir).map testName :=
  names_filterMap_ofNames dir _

/-- Paths have the same test exactly if they have the same words. A list of different tests that
covers a directory holds no more tests than there are fixtures, and as many exactly if no two
fixtures have the same words. -/
theorem tests_of_coverage (t : FileTree) (dir : Path) :
    (∀ p q : Path, testName p = testName q ↔ p.words = q.words) ∧
    (discover t.access dir).map Fixture.name = (t.fixturePaths dir).map testName ∧
    ∀ tests : List String, tests.Nodup → coverage (discover t.access dir) tests = .ok () →
      tests.length ≤ (discover t.access dir).length ∧
      ((discover t.access dir).length = tests.length ↔
        (t.fixturePaths dir).Pairwise fun p q => p.words ≠ q.words) := by
  refine ⟨fun _ _ => testName_eq_iff, names_discover t dir, fun tests htests hcovered => ?_⟩
  obtain ⟨hle, hiff⟩ := length_eq_iff_nodup htests (coverage_eq_ok_iff.1 hcovered)
  rw [List.length_map] at hle hiff
  refine ⟨hle, hiff.trans ?_⟩
  rw [names_discover, List.Nodup, List.pairwise_map]
  simp only [ne_eq, testName_eq_iff]

/-- Two fixtures of different words. -/
def snakeTree : FileTree :=
  ((⟨[]⟩ : FileTree).write (.ofText "d/simple.kt") .empty).write (.ofText "d/nested/fooBar.kt")
    .empty

theorem tests_of_coverage_snakeTree :
    ["test_simple", "test_nested_foo_bar"].Nodup ∧
    coverage (discover snakeTree.access (.ofText "d")) ["test_simple", "test_nested_foo_bar"] =
      .ok () ∧
    (snakeTree.fixturePaths (.ofText "d")).Pairwise fun p q => p.words ≠ q.words := by
  have hnodup : ["test_simple", "test_nested_foo_bar"].Nodup := by decide
  have hwalk : snakeTree.walk (.ofText "d") = [["nested", "fooBar.kt"], ["simple.kt"]] := by
    decide +kernel
  have hnames : (discover snakeTree.access (.ofText "d")).map Fixture.name =
      ["test_nested_foo_bar", "test_simple"] := by
    rw [names_discover, FileTree.fixturePaths_of_walk hwalk (by decide +kernel)]
    decide +kernel
  have hcovered : coverage (discover snakeTree.access (.ofText "d"))
      ["test_simple", "test_nested_foo_bar"] = .ok () :=
    coverage_eq_ok_iff.2 fun name => by rw [hnames, List.mem_pair, List.mem_pair, or_comm]
  have hlength := congrArg List.length hnames
  rw [List.length_map] at hlength
  obtain ⟨-, -, hcount⟩ := tests_of_coverage snakeTree (.ofText "d")
  exact ⟨hnodup, hcovered, (hcount _ hnodup hcovered).2.1 hlength⟩

/-- Two fixtures of the same words. -/
def dashedTree : FileTree :=
  ((⟨[]⟩ : FileTree).write (.ofText "d/a_b.kt") .empty).write (.ofText "d/a-b.kt") .empty

/-- Two fixtures with one test, which covers them. -/
theorem not_tests_of_coverage_dashedTree :
    dashedTree.fixturePaths (.ofText "d") = [.ofText "a-b.kt", .ofText "a_b.kt"] ∧
    Path.ofText "a-b.kt" ≠ .ofText "a_b.kt" ∧
    testName (.ofText "a-b.kt") = testName (.ofText "a_b.kt") ∧
    ["test_a_b"].Nodup ∧
    coverage (discover dashedTree.access (.ofText "d")) ["test_a_b"] = .ok () ∧
    (discover dashedTree.access (.ofText "d")).length ≠ ["test_a_b"].length := by
  have hwalk : dashedTree.walk (.ofText "d") = [["a-b.kt"], ["a_b.kt"]] := by decide +kernel
  have hpaths : dashedTree.fixturePaths (.ofText "d") = [.ofText "a-b.kt", .ofText "a_b.kt"] := by
    rw [FileTree.fixturePaths_of_walk hwalk (by decide +kernel)]
    decide +kernel
  have hnames : (discover dashedTree.access (.ofText "d")).map Fixture.name =
      ["test_a_b", "test_a_b"] := by
    rw [names_discover, hpaths]
    decide +kernel
  have hlength := congrArg List.length hnames
  rw [List.length_map] at hlength
  refine ⟨hpaths, by decide, by decide +kernel, by decide, ?_, ?_⟩
  · exact coverage_eq_ok_iff.2 fun name => by rw [hnames]; simp
  · rw [hlength]
    decide

end FrameCheck
