import Reshape.Proofs.Batch.Sharing
import Reshape.Proofs.Batch.Verdicts
import Reshape.Proofs.Redefinition.FullPool
import Reshape.Proofs.Text.Split

/-!
# The classes of a batch

What a batch makes of a class is what it makes of the class alone.  Only the names of accessor classes
are drawn for all of them, and whether such a name is new to a pool that is nearly full decides why
a class that fails does so.
-/

namespace Reshape

namespace Batch

/-! ## §1 Verdicts that are alike -/

/-- The same verdict, or two failures of which one says that a pool overflows. -/
inductive Verdict.Alike : Verdict → Verdict → Prop
  | same (v : Verdict) : Alike v v
  | overflow {text text' : String} (h : text = overflowText ∨ text' = overflowText) :
      Alike (.failed text) (.failed text')

theorem summary_alike {outcome outcome' : Outcome} (h : outcome.Alike outcome') :
    summary outcome = summary outcome' := by
  have hclass : outcome.schema.className = outcome'.schema.className :=
    (congrArg Schema.className h.schema :)
  have hredirected := congrArg List.length h.redirected
  rw [List.length_map, List.length_map] at hredirected
  unfold summary
  rw [hclass, h.added, hredirected, h.removed]

/-- The verdict on a file that is written when it can be. -/
def Verdict.ofResult : Except String Outcome → Verdict
  | .error text => .failed text
  | .ok outcome => .redefined (summary outcome) outcome.bytes

theorem ResultsAlike.verdicts {x y : Except String Outcome} (h : ResultsAlike x y) :
    (Verdict.ofResult x).Alike (.ofResult y) := by
  cases h with
  | ok h =>
      rw [Verdict.ofResult, Verdict.ofResult, summary_alike h, h.bytes]
      exact .same _
  | error text => exact .same _
  | overflow h => exact .overflow h

/-- Each path in both trees holds one class, and different ones hold different classes. -/
structure OneClassEach (name : Path → String) (baseline updated : FileTree) : Prop where
  holds : ∀ file ∈ updated.classFiles, ∀ loaded, baseline.read? file.1 = some loaded → ∀ c,
    ClassFile.parse loaded = .ok c ∨ ClassFile.parse file.2 = .ok c → c.name = .ok (name file.1)
  apart : ∀ file ∈ updated.classFiles, ∀ file' ∈ updated.classFiles,
    (baseline.read? file.1).isSome → (baseline.read? file'.1).isSome →
    name file.1 = name file'.1 → file.1 = file'.1

theorem registries_step (o : Options) (baseline : FileTree) (p : Progress) (file : Path × Bytes) :
    (step o baseline p file).registries = match baseline.read? file.1 with
      | none => p.registries
      | some loaded => (redefine o loaded file.2 p.registries).2 := by
  unfold step
  cases baseline.read? file.1 with
  | none => rfl
  | some loaded =>
    dsimp only
    obtain ⟨result, registries⟩ := redefine o loaded file.2 p.registries
    cases result with
    | error text => rfl
    | ok outcome =>
      dsimp only
      cases p.tree.write (.ofPath (o.out ++ file.1)) outcome.bytes <;> rfl

/-- Before a class has its turn, others have left nothing of it. -/
theorem Before.foldl_step {o : Options} {baseline updated : FileTree} {name : Path → String}
    (hnames : OneClassEach name baseline updated) {file : Path × Bytes}
    (hfile : file ∈ updated.classFiles) (hloaded : (baseline.read? file.1).isSome)
    (files : List (Path × Bytes)) :
    ∀ p : Progress, Before o (name file.1) p.registries →
      (∀ other ∈ files, other ∈ updated.classFiles ∧ other.1 ≠ file.1) →
      Before o (name file.1) (files.foldl (step o baseline) p).registries := by
  induction files with
  | nil => exact fun p h _ => h
  | cons other files ih =>
      intro p h hothers
      obtain ⟨⟨hother, hne⟩, hothers⟩ := List.forall_mem_cons.mp hothers
      refine ih _ ?_ hothers
      rw [registries_step]
      cases hread : baseline.read? other.1 with
      | none => exact h
      | some loaded =>
        refine h.redefine (hnames.holds other hother loaded hread) fun hsame => hne ?_
        exact hnames.apart other hother file hfile (by rw [hread]; rfl) hloaded hsame

/-- A class without fields. -/
def bare (name : String) : ClassFile :=
  ⟨0, 49, ⟨#[.unused, .utf8 name, .classRef 1]⟩, ⟨0x21⟩, 2, 0, [], [], [], []⟩

/-- A class with one field. -/
def oneField (name : String) : ClassFile :=
  ⟨0, 49, ⟨#[.unused, .utf8 name, .classRef 1, .utf8 "x", .utf8 "I"]⟩, ⟨0x21⟩, 2, 0, [],
    [⟨⟨1⟩, 3, 4, []⟩], [], []⟩

def sharing : Options := { updatedName := "new" }

/-- A tree of two class files. -/
def pair (a b : Bytes) : FileTree := { files := [(["A.class"], a), (["B.class"], b)] }

section Pair

variable (a b : Bytes)

end Pair

/-- What the first class leaves. -/
def shared : Registries :=
  (redefine sharing (Pass.stored (bare "A")) (Pass.stored (oneField "A"))
    (.start sharing.config sharing.loader)).2

/-- The way to an accessor class. -/
def proxyRoute (file : String) : Route := ["", "out", "org", "hotfield", "proxy"] ++ [file]

/-- The routes that are taken in order, with those above them. -/
def routes : List Route :=
  [["", "out"], ["", "out"] ++ ["A.class"], ["", "out"] ++ ["B.class"],
    ["", "out", "org", "hotfield", "proxy"], proxyRoute "FieldProxy$0.class",
    proxyRoute "FieldProxy$1.class"]

theorem checkText_routes : ∀ r ∈ routes, FileTree.checkText r = .ok () := by
  have hplain : ∀ r ∈ routes,
      '\x00' ∉ r.text.toList ∧ r.text.utf8ByteSize < Route.textLimit := by
    decide +kernel
  exact fun r hr => FileTree.checkText_eq_ok (hplain r hr).1 (hplain r hr).2

theorem write_proxy {file : String}
    (hfile : file = "FieldProxy$0.class" ∨ file = "FieldProxy$1.class") (t : FileTree)
    (content : Bytes) : t.write (proxyRoute file) content = (do
      let (t, directory) ← t.makeWay [] false ["", "out", "org", "hotfield", "proxy"]
      t.put directory file content) := by
  refine FileTree.write_eq rfl (checkText_routes _ ?_) (checkText_routes _ ?_) t content
  · simp [routes]
  · rcases hfile with rfl | rfl <;> simp [routes, proxyRoute]

theorem ofText_proxy : Route.ofText ["out"] (FullPool.firstName ++ ".class") =
      proxyRoute "FieldProxy$0.class" ∧
    Route.ofText ["out"] ("org/hotfield/proxy/FieldProxy$1" ++ ".class") =
      proxyRoute "FieldProxy$1.class" := by
  unfold Route.ofText
  rw [show "/" = String.ofList ['/'] from rfl, splitOn_char, splitOn_char]
  decide +kernel

/-! ### The first class -/

theorem exists_of_summary {x : Except String Outcome × Registries} {line : String}
    (h : x.1.map summary = .ok line) :
    ∃ outcome, x = (.ok outcome, x.2) ∧ summary outcome = line := by
  obtain ⟨result, registries⟩ := x
  cases result with
  | error text => cases h
  | ok outcome => exact ⟨outcome, rfl, Except.ok.inj h⟩

/-- As many numbers as fill the pool. -/
def numbers : List Int32 := (List.range 65527).map Int32.ofNat

end Batch

end Reshape
