import Mathlib.Data.List.Sort
import Reshape.Batch.Run
import Reshape.Proofs.Results

/-!
# What a batch reports

A batch takes its files one after the other and comes to a verdict on each of them.  Its lines are
the lines of these verdicts in order, and a file that is skipped might as well not be there.
-/

namespace Reshape

/-! ## §1 The walk -/

namespace Path

end Path

namespace FileTree

/-- No path is taken twice. -/
def Proper (t : FileTree) : Prop := (t.files.map Prod.fst).Nodup

/-- The tree with nothing but the file at a path. -/
def only (t : FileTree) (p : Path) : FileTree := { files := t.files.filter (·.1 == p) }

/-- The tree without the file at a path. -/
def without (t : FileTree) (p : Path) : FileTree :=
  { t with files := t.files.filter (·.1 != p) }

theorem mem_classFiles {t : FileTree} {file : Path × Bytes} :
    file ∈ t.classFiles ↔ file ∈ t.files ∧ Path.isClassFile file.1 = true := by
  unfold classFiles
  rw [List.mem_mergeSort, List.mem_filter]

theorem Proper.nodup_classFiles {t : FileTree} (h : t.Proper) :
    (t.classFiles.map Prod.fst).Nodup := by
  have hperm : t.classFiles.Perm _ := List.mergeSort_perm _ _
  exact (hperm.map Prod.fst).nodup_iff.mpr (h.sublist (List.filter_sublist.map Prod.fst))

/-- A walk comes to a path once. -/
theorem Proper.once {t : FileTree} (h : t.Proper) {path : Path} {content : Bytes}
    {before after : List (Path × Bytes)} (hfiles : t.classFiles = before ++ (path, content) :: after) :
    path ∉ before.map Prod.fst ∧ path ∉ after.map Prod.fst := by
  have hnodup := h.nodup_classFiles
  rw [hfiles, List.map_append, List.map_cons, List.nodup_middle, List.nodup_cons, List.mem_append,
    not_or] at hnodup
  exact hnodup.1

/-- Along a route whose text is in order, only the tree itself can be in the way. -/
theorem write_eq {above : Route} {name : String}
    (hlast : above.reverse.dropWhile Route.stays = above.reverse)
    (habove : checkText above = .ok ()) (hall : checkText (above ++ [name]) = .ok ())
    (t : FileTree) (content : Bytes) :
    t.write (above ++ [name]) content = (do
      let (t, directory) ← t.makeWay [] false above
      t.put directory name content) := by
  unfold write
  rw [List.reverse_append, List.reverse_singleton, List.singleton_append]
  dsimp only
  rw [hlast, List.reverse_reverse, habove, hall]
  rfl

theorem checkText_eq_ok {r : Route} (hplain : '\x00' ∉ r.text.toList)
    (hshort : r.text.utf8ByteSize < Route.textLimit) : checkText r = .ok () := by
  unfold checkText
  rw [String.contains_char_eq, decide_eq_false hplain, if_neg Bool.false_ne_true,
    if_neg (Nat.not_le.mpr hshort)]

end FileTree

namespace Batch

/-! ## §3 Verdicts -/

/-- What becomes of one file of the new classes. -/
inductive Verdict
  /-- There was no such class before. -/
  | skipped
  | failed (text : String)
  /-- The class is redefined but cannot be written. -/
  | unwritten (fault : FileFault)
  /-- The line that is reported and the bytes that are written. -/
  | redefined (line : String) (bytes : Bytes)
  deriving DecidableEq

def verdict (o : Options) (baseline : FileTree) (p : Progress) (file : Path × Bytes) : Verdict :=
  match baseline.read? file.1 with
  | none => .skipped
  | some loaded =>
    match (redefine o loaded file.2 p.registries).1 with
    | .error text => .failed text
    | .ok outcome =>
      match p.tree.write (.ofPath (o.out ++ file.1)) outcome.bytes with
      | .error fault => .unwritten fault
      | .ok _ => .redefined (summary outcome) outcome.bytes

/-- The verdicts on some files, each in the state that those before it have left. -/
def verdictsFrom (o : Options) (baseline : FileTree) (p : Progress) :
    List (Path × Bytes) → List (Path × Verdict)
  | [] => []
  | file :: rest =>
    (file.1, verdict o baseline p file) :: verdictsFrom o baseline (step o baseline p file) rest

/-- The verdicts of a batch. -/
def verdicts (o : Options) (baseline updated tree : FileTree) : List (Path × Verdict) :=
  verdictsFrom o baseline (.start o tree) updated.classFiles

/-- The line that is printed. -/
def Verdict.line? : Verdict → Option String
  | redefined line _ => some line
  | _ => none

/-- The line that is printed as an error. -/
def Verdict.message? (path : Path) : Verdict → Option String
  | failed text => some (Path.text path ++ ": " ++ text)
  | unwritten fault => some (Path.text path ++ ": " ++ fault.message)
  | _ => none

def Verdict.isFailure : Verdict → Bool
  | failed _ => true
  | _ => false

/-- Writes what a verdict says is written. -/
def store (o : Options) (tree : FileTree) : Path × Verdict → Except FileFault FileTree
  | (path, .redefined _ bytes) => tree.write (.ofPath (o.out ++ path)) bytes
  | _ => .ok tree

/-- What one step does with a file is what its verdict says. -/
structure Follows (o : Options) (baseline : FileTree) (p : Progress) (file : Path × Bytes)
    (v : Verdict) (p' : Progress) : Prop where
  output : p'.output = p.output ++ v.line?.toList
  errors : p'.errors = p.errors ++ (v.message? file.1).toList
  written : store o p.tree (file.1, v) = .ok p'.tree
  skipped : v = .skipped ↔ baseline.read? file.1 = none
  unmoved : v = .skipped → p' = p

theorem follows_step (o : Options) (baseline : FileTree) (p : Progress) (file : Path × Bytes) :
    Follows o baseline p file (verdict o baseline p file) (step o baseline p file) := by
  unfold verdict step
  cases hloaded : baseline.read? file.1 with
  | none => constructor <;> simp [Verdict.line?, Verdict.message?, store, hloaded]
  | some loaded =>
    dsimp only
    obtain ⟨result, registries⟩ := redefine o loaded file.2 p.registries
    cases result with
    | error text => constructor <;> simp [Verdict.line?, Verdict.message?, store, hloaded]
    | ok outcome =>
      dsimp only
      cases hwrite : p.tree.write (.ofPath (o.out ++ file.1)) outcome.bytes with
      | error fault => constructor <;> simp [Verdict.line?, Verdict.message?, store, hloaded]
      | ok tree =>
        constructor <;> simp [Verdict.line?, Verdict.message?, store, hloaded]
        exact hwrite

section Steps

variable {o : Options} {baseline : FileTree} {p : Progress} {file : Path × Bytes} {loaded : Bytes}

theorem step_of_ok {r : Registries} {outcome : Outcome} {tree : FileTree}
    (hloaded : baseline.read? file.1 = some loaded)
    (h : redefine o loaded file.2 p.registries = (.ok outcome, r))
    (hwrite : p.tree.write (.ofPath (o.out ++ file.1)) outcome.bytes = .ok tree) :
    verdict o baseline p file = .redefined (summary outcome) outcome.bytes ∧
      step o baseline p file =
        { p with registries := r, tree, output := p.output ++ [summary outcome] } := by
  unfold verdict step
  rw [hloaded]
  dsimp only
  rw [h]
  dsimp only
  rw [hwrite]
  exact ⟨rfl, rfl⟩

end Steps

/-! ## §4 A whole batch -/

/-- The state of a batch when all classes have had their turn. -/
def finish (o : Options) (baseline updated tree : FileTree) : Progress :=
  updated.classFiles.foldl (step o baseline) (.start o tree)

/-- Whether every write succeeds, also those of generated classes. -/
structure Writes (o : Options) (baseline updated tree : FileTree) : Prop where
  classes : ∀ v ∈ verdicts o baseline updated tree, ∀ fault, v.2 ≠ .unwritten fault
  generated : (writeGenerated o.out o.loader (finish o baseline updated tree).registries.store
    (finish o baseline updated tree).tree
    ((finish o baseline updated tree).registries.store.namesIn o.loader)).2 = none

theorem foldl_step (o : Options) (baseline : FileTree) (files : List (Path × Bytes)) :
    ∀ p : Progress,
      (files.foldl (step o baseline) p).output =
          p.output ++ (verdictsFrom o baseline p files).filterMap (·.2.line?) ∧
        (files.foldl (step o baseline) p).errors =
          p.errors ++ (verdictsFrom o baseline p files).filterMap fun v => v.2.message? v.1 := by
  induction files with
  | nil => simp [verdictsFrom]
  | cons file files ih =>
      intro p
      obtain ⟨houtput, herrors⟩ := ih (step o baseline p file)
      have hstep := follows_step o baseline p file
      rw [List.foldl_cons, houtput, herrors, hstep.output, hstep.errors, verdictsFrom]
      constructor
      · cases hline : (verdict o baseline p file).line? <;> simp [hline]
      · cases hmessage : (verdict o baseline p file).message? file.1 <;> simp [hmessage]

theorem foldlM_store (o : Options) (baseline : FileTree) (files : List (Path × Bytes)) :
    ∀ p : Progress, (verdictsFrom o baseline p files).foldlM (store o) p.tree =
      .ok (files.foldl (step o baseline) p).tree := by
  induction files with
  | nil => exact fun p => rfl
  | cons file files ih =>
      intro p
      rw [verdictsFrom, List.foldlM_cons, (follows_step o baseline p file).written]
      exact ih _

theorem map_fst_verdictsFrom (o : Options) (baseline : FileTree) (files : List (Path × Bytes)) :
    ∀ p : Progress, (verdictsFrom o baseline p files).map Prod.fst = files.map Prod.fst := by
  induction files with
  | nil => exact fun p => rfl
  | cons file files ih =>
      intro p
      rw [verdictsFrom, List.map_cons, List.map_cons, ih]

/-- What a batch reports and writes is what its verdicts say. -/
structure Reported (o : Options) (baseline updated tree : FileTree) : Prop where
  /-- Each class file has its turn. -/
  paths : (verdicts o baseline updated tree).map Prod.fst = updated.classFiles.map Prod.fst
  output : (run o (some baseline) (some updated) tree).output =
    (verdicts o baseline updated tree).filterMap (·.2.line?)
  errors : (run o (some baseline) (some updated) tree).errors =
    (verdicts o baseline updated tree).filterMap fun v => v.2.message? v.1
  /-- The batch fails if a class fails. -/
  failed : (run o (some baseline) (some updated) tree).hasFailed = true ↔
    ∃ v ∈ verdicts o baseline updated tree, v.2.isFailure = true
  /-- The classes are written one after the other and then those that were generated. -/
  written : ∃ t, (verdicts o baseline updated tree).foldlM (store o) tree = .ok t ∧
    let store := (run o (some baseline) (some updated) tree).registries.store
    (run o (some baseline) (some updated) tree).tree =
      (writeGenerated o.out o.loader store t (store.namesIn o.loader)).1

/-- If every write succeeds, the generated classes are written behind the others. -/
theorem run_of_writes {o : Options} {baseline updated tree : FileTree}
    (h : Writes o baseline updated tree) :
    run o (some baseline) (some updated) tree = { finish o baseline updated tree with
      tree := (writeGenerated o.out o.loader (finish o baseline updated tree).registries.store
        (finish o baseline updated tree).tree
        ((finish o baseline updated tree).registries.store.namesIn o.loader)).1 } := by
  have hgenerated : writeGenerated o.out o.loader (finish o baseline updated tree).registries.store
      (finish o baseline updated tree).tree
      ((finish o baseline updated tree).registries.store.namesIn o.loader) = (_, none) :=
    Prod.ext rfl h.generated
  unfold run
  dsimp only [Option.getD_some]
  rw [← finish, hgenerated]

theorem reported_of_writes {o : Options} {baseline updated tree : FileTree}
    (h : Writes o baseline updated tree) : Reported o baseline updated tree := by
  obtain ⟨houtput, herrors⟩ := foldl_step o baseline updated.classFiles (.start o tree)
  let p := finish o baseline updated tree
  have hrun := run_of_writes h
  have hmessages : p.errors =
      (verdicts o baseline updated tree).filterMap fun v => v.2.message? v.1 := herrors
  constructor
  · exact map_fst_verdictsFrom _ _ _ _
  · rw [hrun]
    exact houtput
  · rw [hrun]
    exact hmessages
  · rw [hrun]
    show (!p.errors.isEmpty) = true ↔ _
    rw [hmessages, Bool.not_eq_true', List.isEmpty_eq_false_iff, Ne, List.filterMap_eq_nil_iff]
    simp only [not_forall, exists_prop]
    refine exists_congr fun v => and_congr_right fun hv => ?_
    have hwritten := h.classes v hv
    obtain ⟨path, v⟩ := v
    cases v with
    | unwritten fault => exact (hwritten fault rfl).elim
    | _ => simp [Verdict.message?, Verdict.isFailure]
  · rw [hrun]
    exact ⟨p.tree, foldlM_store o baseline updated.classFiles (.start o tree), rfl⟩

end Batch

end Reshape
