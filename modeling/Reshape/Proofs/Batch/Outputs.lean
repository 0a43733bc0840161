import Reshape.Proofs.Batch.Independence

/-!
# What is left of the outputs

A batch writes the redefined classes and then, into the same tree, the generated ones.  A write
replaces the file at the place where its route leads and leaves the others as they are, so of all
writes to one place the last one counts.  The names of generated classes are chosen without a look
at the trees, and so a class that is redefined may lie where a generated one is to go: then nothing
is left of it.
-/

namespace Reshape

/-! ## §1 Where routes lead -/

namespace Route

/-- What one part of a route does to the place where it is met. -/
def enter (here : Path) (part : String) : Path :=
  if stays part then here else if part = ".." then here.dropLast else here ++ [part]

/-- The place to which a route leads from the top. -/
def place (r : Route) : Path := r.foldl enter []

theorem enter_of_stays {here : Path} {part : String} (h : stays part = true) :
    enter here part = here :=
  if_pos h

theorem enter_of_name {here : Path} {part : String} (h : isSign part = false) :
    enter here part = here ++ [part] := by
  unfold isSign at h
  rw [Bool.or_eq_false_iff, beq_eq_false_iff_ne] at h
  rw [enter, h.1, if_neg Bool.false_ne_true, if_neg h.2]

theorem foldl_enter_of_stays {parts : Route} (h : ∀ part ∈ parts, stays part = true)
    (here : Path) : parts.foldl enter here = here := by
  induction parts with
  | nil => rfl
  | cons part parts ih =>
      rw [List.forall_mem_cons] at h
      rw [List.foldl_cons, enter_of_stays h.1, ih h.2]

end Route

/-- Every part of the path is a name. -/
def Path.Plain (p : Path) : Prop := ∀ part ∈ p, Route.isSign part = false

theorem Path.Plain.append {p q : Path} (hp : p.Plain) (hq : q.Plain) : (p ++ q).Plain :=
  List.forall_mem_append.mpr ⟨hp, hq⟩

theorem Route.place_ofPath {p : Path} (h : p.Plain) : place (.ofPath p) = p := by
  have hnames : ∀ (parts here : Path), parts.Plain → parts.foldl enter here = here ++ parts := by
    intro parts
    induction parts with
    | nil => exact fun here _ => (List.append_nil here).symm
    | cons part parts ih =>
        intro here hparts
        obtain ⟨hpart, hrest⟩ := List.forall_mem_cons.mp hparts
        rw [List.foldl_cons, enter_of_name hpart, ih _ hrest, List.append_assoc,
          List.singleton_append]
  exact hnames p [] h

namespace FileTree

/-! ## §2 Writing -/

/-- The way to a place leaves the files alone. -/
theorem makeWay_ok {route : Route} : ∀ {t t' : FileTree} {here directory : Path} {closed : Bool},
    t.makeWay here closed route = .ok (t', directory) →
      t'.files = t.files ∧ directory = route.foldl Route.enter here := by
  induction route with
  | nil =>
      intro t t' here directory closed h
      cases h
      exact ⟨rfl, rfl⟩
  | cons part rest ih =>
      intro t t' here directory closed h
      rw [List.foldl_cons, Route.enter]
      unfold makeWay at h
      by_cases hstays : Route.stays part = true
      · rw [if_pos hstays] at h ⊢
        exact ih h
      rw [if_neg hstays] at h ⊢
      by_cases hback : part = ".."
      · rw [if_pos hback] at h ⊢
        exact ih h
      rw [if_neg hback] at h ⊢
      split at h
      · cases h
      dsimp only at h
      split at h
      · exact ih h
      split at h
      · cases h
      · obtain ⟨hfiles, hdirectory⟩ := ih h
        exact ⟨hfiles, hdirectory⟩

theorem put_ok {t t' : FileTree} {directory : Path} {name : String} {content : Bytes}
    (h : t.put directory name content = .ok t') :
    Route.isSign name = false ∧ t'.read? (directory ++ [name]) = some content ∧
      ∀ p, p ≠ directory ++ [name] → t'.read? p = t.read? p := by
  unfold put at h
  dsimp only at h
  split at h
  · cases h
  · next hfree =>
    split at h
    · cases h
    · cases h
      rw [Bool.not_eq_true, Bool.or_eq_false_iff] at hfree
      refine ⟨hfree.1, ?_, ?_⟩
      · have hothers : (t.files.filter (·.1 != directory ++ [name])).find?
            (·.1 == directory ++ [name]) = none := by
          refine List.find?_eq_none.mpr fun f hf hsame => ?_
          rw [List.mem_filter, bne_iff_ne] at hf
          exact hf.2 (beq_iff_eq.mp hsame)
        unfold read?
        rw [List.find?_append, hothers, Option.none_or, List.find?_singleton,
          if_pos (beq_self_eq_true _)]
        rfl
      · intro p hp
        have hlast : [(directory ++ [name], content)].find? (·.1 == p) = none := by
          rw [List.find?_singleton, if_neg (by simpa using hp.symm)]
        unfold read?
        rw [List.find?_append, hlast, Option.or_none, List.find?_filter]
        congr 2
        funext f
        by_cases hf : f.1 = p
        · simp [hf, hp]
        · simp [hf]

/-- **A write replaces the file at the place where the route leads.** -/
theorem write_ok {t t' : FileTree} {r : Route} {content : Bytes}
    (h : t.write r content = .ok t') :
    t'.read? r.place = some content ∧ ∀ p, p ≠ r.place → t'.read? p = t.read? p := by
  unfold write at h
  split at h
  · cases h
  · next name back hreverse =>
    dsimp only at h
    obtain ⟨-, -, h⟩ := except_bind_eq_ok.mp h
    obtain ⟨⟨t₁, directory⟩, hway, h⟩ := except_bind_eq_ok.mp h
    obtain ⟨-, -, h⟩ := except_bind_eq_ok.mp h
    obtain ⟨hfiles, hdirectory⟩ := makeWay_ok hway
    obtain ⟨hname, hread, hothers⟩ := put_ok h
    have hstays : ∀ part ∈ (back.takeWhile Route.stays).reverse, Route.stays part = true := by
      intro part hpart
      exact List.all_eq_true.mp List.all_takeWhile part (List.mem_reverse.mp hpart)
    have hback : back.reverse =
        (back.dropWhile Route.stays).reverse ++ (back.takeWhile Route.stays).reverse := by
      rw [← List.reverse_append, List.takeWhile_append_dropWhile]
    have hplace : r.place = directory ++ [name] := by
      rw [← List.reverse_reverse r, hreverse, List.reverse_cons, hback, Route.place,
        List.foldl_append, List.foldl_append, ← hdirectory, Route.foldl_enter_of_stays hstays,
        List.foldl_cons, List.foldl_nil, Route.enter_of_name hname]
    rw [hplace]
    refine ⟨hread, fun p hp => ?_⟩
    rw [hothers p hp, read?, read?, hfiles]

/-- A row of writes, one after the other. -/
def writeAll (t : FileTree) (writes : List (Route × Bytes)) : Except FileFault FileTree :=
  writes.foldlM (fun t w => t.write w.1 w.2) t

/-- **What is left of a row of writes.**  Where all that is written to a place is the same, that is
what is there. -/
theorem read?_of_writeAll {writes : List (Route × Bytes)} {p : Path} {content : Bytes}
    (hsame : ∀ w ∈ writes, w.1.place = p → w.2 = content) : ∀ {t t' : FileTree},
      t.writeAll writes = .ok t' →
        (t.read? p = some content ∨ ∃ w ∈ writes, w.1.place = p) → t'.read? p = some content := by
  induction writes with
  | nil =>
      intro t t' h hfound
      cases h
      rcases hfound with hread | ⟨w, hw, -⟩
      · exact hread
      · cases hw
  | cons w writes ih =>
      intro t t' h hfound
      obtain ⟨hfirst, hrest⟩ := List.forall_mem_cons.mp hsame
      unfold writeAll at h
      rw [List.foldlM_cons] at h
      obtain ⟨t₁, hwrite, h⟩ := except_bind_eq_ok.mp h
      obtain ⟨hread, hothers⟩ := write_ok hwrite
      refine ih hrest h ?_
      by_cases hplace : w.1.place = p
      · exact .inl (by rw [← hplace, hread, hfirst hplace])
      · rw [hothers p (Ne.symm hplace)]
        refine hfound.imp_right ?_
        rintro ⟨w', hw', hsame'⟩
        rcases List.mem_cons.mp hw' with rfl | hw'
        · exact absurd hsame' hplace
        · exact ⟨w', hw', hsame'⟩

end FileTree

namespace Batch

/-! ## §3 The writes of a batch -/

variable {o : Options} {baseline updated tree : FileTree}

/-- The way to a generated class. -/
def generatedRoute (o : Options) (name : String) : Route := .ofText o.out (name ++ ".class")

/-- What is written for the verdict on a class. -/
def writeOf? (o : Options) : Path × Verdict → Option (Route × Bytes)
  | (path, .redefined _ bytes) => some (.ofPath (o.out ++ path), bytes)
  | _ => none

/-- What is written for a generated class. -/
def writeOfName? (o : Options) (store : Store) (name : String) : Option (Route × Bytes) :=
  (store.load? o.loader name).map fun content => (generatedRoute o name, content)

theorem foldlM_store_eq (o : Options) (vs : List (Path × Verdict)) : ∀ t : FileTree,
    vs.foldlM (store o) t = t.writeAll (vs.filterMap (writeOf? o)) := by
  induction vs with
  | nil => exact fun t => rfl
  | cons v vs ih =>
      intro t
      obtain ⟨path, v⟩ := v
      cases v with
      | redefined line bytes =>
          rw [List.foldlM_cons, List.filterMap_cons]
          exact bind_congr fun t₁ => ih t₁
      | _ => exact ih t

theorem writeGenerated_eq {store : Store} {names : List String} : ∀ {t : FileTree},
    (writeGenerated o.out o.loader store t names).2 = none →
      t.writeAll (names.filterMap (writeOfName? o store)) =
        .ok (writeGenerated o.out o.loader store t names).1 := by
  induction names with
  | nil => exact fun _ => rfl
  | cons name names ih =>
      intro t h
      unfold writeGenerated at h ⊢
      rw [List.filterMap_cons, writeOfName?]
      cases hload : store.load? o.loader name with
      | none =>
          rw [hload] at h
          exact ih h
      | some content =>
          rw [hload] at h
          dsimp only [Option.map_some] at h ⊢
          cases hwrite : t.write (Route.ofText o.out (name ++ ".class")) content with
          | error fault =>
              rw [hwrite] at h
              cases h
          | ok t₁ =>
              rw [hwrite] at h
              exact except_bind_eq_ok.mpr ⟨t₁, hwrite, ih h⟩

/-- All that a batch writes, in order. -/
def writes (o : Options) (baseline updated tree : FileTree) : List (Route × Bytes) :=
  let store := (run o (some baseline) (some updated) tree).registries.store
  (verdicts o baseline updated tree).filterMap (writeOf? o) ++
    (store.namesIn o.loader).filterMap (writeOfName? o store)

/-- The tree that a batch leaves is the one it was given, with all writes carried out. -/
theorem writeAll_writes (h : Writes o baseline updated tree) :
    tree.writeAll (writes o baseline updated tree) =
      .ok (run o (some baseline) (some updated) tree).tree := by
  have hrun := run_of_writes h
  have hclasses := foldlM_store o baseline updated.classFiles (.start o tree)
  rw [foldlM_store_eq] at hclasses
  rw [writes, hrun, FileTree.writeAll, List.foldlM_append]
  exact except_bind_eq_ok.mpr ⟨_, hclasses, writeGenerated_eq h.generated⟩

/-- A write is that of a redefined class or that of a generated one. -/
theorem mem_writes {w : Route × Bytes} : w ∈ writes o baseline updated tree ↔
    (∃ path line bytes, (path, Verdict.redefined line bytes) ∈ verdicts o baseline updated tree ∧
        w = (.ofPath (o.out ++ path), bytes)) ∨
      ∃ name content, (run o (some baseline) (some updated) tree).registries.store.load? o.loader
        name = some content ∧ w = (generatedRoute o name, content) := by
  unfold writes
  rw [List.mem_append, List.mem_filterMap, List.mem_filterMap]
  refine or_congr ?_ ?_
  · constructor
    · rintro ⟨⟨path, v⟩, hv, hw⟩
      cases v with
      | redefined line bytes =>
          cases hw
          exact ⟨path, line, bytes, hv, rfl⟩
      | _ => cases hw
    · rintro ⟨path, line, bytes, hv, rfl⟩
      exact ⟨_, hv, rfl⟩
  · constructor
    · rintro ⟨name, -, hw⟩
      obtain ⟨content, hload, rfl⟩ := Option.map_eq_some_iff.mp hw
      exact ⟨name, content, hload, rfl⟩
    · rintro ⟨name, content, hload, rfl⟩
      refine ⟨name, ?_, Option.map_eq_some_iff.mpr ⟨content, hload, rfl⟩⟩
      rw [(Store.namesIn_perm _ _).mem_iff, ← Store.contains_iff, Store.contains, hload]
      rfl

/-- The way to a redefined class leads to its path, if that consists of names. -/
theorem place_of_verdict (hout : o.out.Plain) (hplain : ∀ file ∈ updated.files, Path.Plain file.1)
    {path : Path} {v : Verdict} (h : (path, v) ∈ verdicts o baseline updated tree) :
    Route.place (.ofPath (o.out ++ path)) = o.out ++ path := by
  have hpath : path ∈ (verdicts o baseline updated tree).map Prod.fst :=
    List.mem_map.mpr ⟨_, h, rfl⟩
  rw [verdicts, map_fst_verdictsFrom, List.mem_map] at hpath
  obtain ⟨file, hfile, rfl⟩ := hpath
  exact Route.place_ofPath (hout.append (hplain file (FileTree.mem_classFiles.mp hfile).1))

/-- A class has one verdict. -/
theorem verdict_unique (hproper : updated.Proper) {path : Path} {v v' : Verdict}
    (h : (path, v) ∈ verdicts o baseline updated tree)
    (h' : (path, v') ∈ verdicts o baseline updated tree) : v = v' := by
  have hnodup : ((verdicts o baseline updated tree).map Prod.fst).Nodup := by
    rw [verdicts, map_fst_verdictsFrom]
    exact hproper.nodup_classFiles
  exact congrArg Prod.snd (List.inj_on_of_nodup_map hnodup h h' rfl)

/-! ## §4 A class that has a generated name -/

/-- Where a class lies that is named like the first accessor class. -/
def proxyPath : Path := ["org", "hotfield", "proxy", "FieldProxy$0.class"]

/-- A tree with one class file there. -/
def atProxy (content : Bytes) : FileTree := { files := [(proxyPath, content)] }

/-- A class of that name without fields, and the class with a field. -/
def loadedProxy : FileTree := atProxy (Pass.stored (bare FullPool.firstName))
def updatedProxy : FileTree := atProxy (Pass.stored (oneField FullPool.firstName))

theorem classFiles_atProxy (content : Bytes) :
    (atProxy content).classFiles = [(proxyPath, content)] := by
  have hclass : Path.isClassFile proxyPath = true := by
    show (Path.extension? "FieldProxy$0.class" == some "class") = true
    unfold Path.extension?
    rw [show "." = String.ofList ['.'] from rfl, splitOn_char]
    decide +kernel
  rw [FileTree.classFiles, atProxy, List.filter_singleton, hclass]
  exact List.mergeSort_singleton _

/-- What redefining the class gives. -/
def proxyRedefined : Except String Outcome × Registries :=
  redefine sharing (Pass.stored (bare FullPool.firstName))
    (Pass.stored (oneField FullPool.firstName)) (.start sharing.config sharing.loader)

/-- The new class and the accessor class of its field have one name and are not the same. -/
theorem evaluated_proxyRedefined :
    proxyRedefined.1.map summary =
        .ok "org/hotfield/proxy/FieldProxy$0: 1 added, 0 static, 0 removed" ∧
      (proxyRedefined.2.store.definitions.filter (·.scope == "app")).map Definition.name =
        [FullPool.firstName] ∧
      (proxyRedefined.2.store.load? "app" FullPool.firstName).isSome ∧
      proxyRedefined.1.toOption.map Outcome.bytes ≠
        proxyRedefined.2.store.load? "app" FullPool.firstName := by
  decide +kernel

/-- Both can be written, one after the other. -/
theorem write_twice (a b : Bytes) : ∃ t t',
    ({} : FileTree).write (proxyRoute "FieldProxy$0.class") a = .ok t ∧
      t.write (proxyRoute "FieldProxy$0.class") b = .ok t' :=
  ⟨_, _, (write_proxy (.inl rfl) _ _).trans rfl, (write_proxy (.inl rfl) _ _).trans rfl⟩

theorem proxy_redefined : ∃ bytes content,
    verdicts sharing loadedProxy updatedProxy {} = [(proxyPath,
        .redefined "org/hotfield/proxy/FieldProxy$0: 1 added, 0 static, 0 removed" bytes)] ∧
      Writes sharing loadedProxy updatedProxy {} ∧
      (run sharing (some loadedProxy) (some updatedProxy) {}).registries.store.load? "app"
        FullPool.firstName = some content ∧ content ≠ bytes := by
  obtain ⟨hline, hnames, hload, hother⟩ := evaluated_proxyRedefined
  obtain ⟨outcome, hpass, hsummary⟩ := exists_of_summary hline
  obtain ⟨content, hcontent⟩ := Option.isSome_iff_exists.mp hload
  obtain ⟨t, t', hwrite, hwrite'⟩ := write_twice outcome.bytes content
  rw [hpass] at hother
  let file : Path × Bytes := (proxyPath, Pass.stored (oneField FullPool.firstName))
  have hread : loadedProxy.read? file.1 = some (Pass.stored (bare FullPool.firstName)) := rfl
  have hclasses : updatedProxy.classFiles = [file] := classFiles_atProxy _
  obtain ⟨hverdict, hstep⟩ :=
    @step_of_ok sharing loadedProxy (.start sharing {}) file _ _ _ _ hread hpass hwrite
  have hverdicts : verdicts sharing loadedProxy updatedProxy {} = [(proxyPath, .redefined
      "org/hotfield/proxy/FieldProxy$0: 1 added, 0 static, 0 removed" outcome.bytes)] := by
    rw [verdicts, hclasses, verdictsFrom, verdictsFrom, hverdict, hsummary]
  have hfinish : finish sharing loadedProxy updatedProxy {} =
      step sharing loadedProxy (.start sharing {}) file := by
    rw [finish, hclasses]
    rfl
  rw [hstep] at hfinish
  have hwrites : Writes sharing loadedProxy updatedProxy {} := by
    constructor
    · rw [hverdicts]
      intro v hv fault
      cases List.mem_singleton.mp hv
      exact Verdict.noConfusion
    · rw [hfinish]
      show (writeGenerated ["out"] "app" proxyRedefined.2.store t
        (proxyRedefined.2.store.namesIn "app")).2 = none
      rw [Store.namesIn, hnames, List.mergeSort_singleton, writeGenerated, ofText_proxy.1,
        hcontent]
      dsimp only
      rw [hwrite']
      rfl
  refine ⟨outcome.bytes, content, hverdicts, hwrites, ?_, ?_⟩
  · rw [run_of_writes hwrites, hfinish]
    exact hcontent
  · rintro rfl
    exact hother hcontent.symm

/-! ## §5 What is kept -/

/-- Everything that a batch reports as redefined and everything that it generates is there at its
end. -/
structure OutputsKept (o : Options) (baseline updated tree : FileTree) : Prop where
  classes : ∀ path line bytes,
    (path, Verdict.redefined line bytes) ∈ verdicts o baseline updated tree →
      (run o (some baseline) (some updated) tree).tree.read? (o.out ++ path) = some bytes
  generated : ∀ name content,
    (run o (some baseline) (some updated) tree).registries.store.load? o.loader name =
        some content →
      (run o (some baseline) (some updated) tree).tree.read? (generatedRoute o name).place =
        some content

/-- Where the name of a generated class leads, nothing else is written. -/
structure Apart (o : Options) (baseline updated tree : FileTree) : Prop where
  classes : ∀ path line bytes,
    (path, Verdict.redefined line bytes) ∈ verdicts o baseline updated tree →
      ∀ name content,
        (run o (some baseline) (some updated) tree).registries.store.load? o.loader name =
          some content → (generatedRoute o name).place = o.out ++ path → content = bytes
  generated : ∀ name content name' content',
    (run o (some baseline) (some updated) tree).registries.store.load? o.loader name =
        some content →
      (run o (some baseline) (some updated) tree).registries.store.load? o.loader name' =
        some content' →
      (generatedRoute o name').place = (generatedRoute o name).place → content' = content

/-- The parts of the way to a generated class. -/
def parts (name : String) : Path := (name ++ ".class").splitOn "/"

theorem parts_inj {name name' : String} (h : parts name = parts name') : name = name' := by
  unfold parts at h
  rw [show "/" = String.ofList ['/'] from rfl, splitOn_char, splitOn_char] at h
  have hlists : (name ++ ".class").toList.splitOn '/' = (name' ++ ".class").toList.splitOn '/' :=
    List.map_injective_iff.mpr (fun _ _ => String.ofList_injective) h
  have htexts := congrArg (List.intercalate ['/']) hlists
  rw [List.intercalate_splitOn, List.intercalate_splitOn, String.toList_append,
    String.toList_append] at htexts
  exact String.toList_inj.mp (List.append_cancel_right htexts)

/-- A way whose parts are names leads down from the directory of the outputs. -/
theorem place_of_parts (hout : o.out.Plain) {name : String} (h : (parts name).Plain) :
    (generatedRoute o name).place = o.out ++ parts name := by
  have hroute : generatedRoute o name = .ofPath (o.out ++ parts name) := by
    unfold generatedRoute Route.ofText
    split
    · next names hparts =>
      have hfirst := h "" (by rw [parts, hparts]; exact List.mem_cons_self)
      cases hfirst
    · rfl
  rw [hroute, Route.place_ofPath (hout.append h)]

/-- If the ways to all generated classes consist of names, these lie apart from each other, and only
redefined classes can be in their place. -/
theorem apart_of_plain (hout : o.out.Plain)
    (hnames : ∀ name content, (run o (some baseline) (some updated) tree).registries.store.load?
      o.loader name = some content → (parts name).Plain)
    (hclasses : ∀ path line bytes,
      (path, Verdict.redefined line bytes) ∈ verdicts o baseline updated tree →
        ∀ name content, (run o (some baseline) (some updated) tree).registries.store.load?
          o.loader name = some content → parts name = path → content = bytes) :
    Apart o baseline updated tree := by
  constructor
  · intro path line bytes hv name content hload hsame
    rw [place_of_parts hout (hnames name content hload)] at hsame
    exact hclasses path line bytes hv name content hload (List.append_cancel_left hsame)
  · intro name content name' content' hload hload' hsame
    rw [place_of_parts hout (hnames name content hload),
      place_of_parts hout (hnames name' content' hload')] at hsame
    obtain rfl := parts_inj (List.append_cancel_left hsame)
    exact Option.some.inj (hload'.symm.trans hload)

/-- **Nothing is overwritten if and only if no name leads to where something else is.**  The paths
consist of names and no path is taken twice, and everything can be written.  Then what a batch
writes is kept if and only if the generated classes lie apart from the redefined ones and from each
other. -/
theorem outputs_kept_iff (hproper : updated.Proper) (hout : o.out.Plain)
    (hplain : ∀ file ∈ updated.files, Path.Plain file.1) (h : Writes o baseline updated tree) :
    OutputsKept o baseline updated tree ↔ Apart o baseline updated tree := by
  have hall := writeAll_writes h
  constructor
  · intro hkept
    constructor
    · intro path line bytes hv name content hload hsame
      have hread := hkept.generated name content hload
      rw [hsame, hkept.classes path line bytes hv] at hread
      exact (Option.some.inj hread).symm
    · intro name content name' content' hload hload' hsame
      have hread := hkept.generated name' content' hload'
      rw [hsame, hkept.generated name content hload] at hread
      exact (Option.some.inj hread).symm
  · intro hapart
    constructor
    · intro path line bytes hv
      have hwritten := mem_writes.mpr (.inl ⟨path, line, bytes, hv, rfl⟩)
      refine FileTree.read?_of_writeAll ?_ hall
        (.inr ⟨_, hwritten, place_of_verdict hout hplain hv⟩)
      intro w hw hsame
      rcases mem_writes.mp hw with ⟨path', line', bytes', hv', rfl⟩ | ⟨name, content, hload, rfl⟩
      · rw [place_of_verdict hout hplain hv'] at hsame
        obtain rfl := List.append_cancel_left hsame
        cases verdict_unique hproper hv' hv
        rfl
      · exact hapart.classes path line bytes hv name content hload hsame
    · intro name content hload
      refine FileTree.read?_of_writeAll ?_ hall
        (.inr ⟨_, mem_writes.mpr (.inr ⟨name, content, hload, rfl⟩), rfl⟩)
      intro w hw hsame
      rcases mem_writes.mp hw with ⟨path, line, bytes, hv, rfl⟩ | ⟨name', content', hload', rfl⟩
      · rw [place_of_verdict hout hplain hv] at hsame
        exact (hapart.classes path line bytes hv name content hload hsame.symm).symm
      · exact hapart.generated name content name' content' hload hload' hsame

/-- A class with the name of the first accessor class is redefined and then overwritten. -/
theorem redefined_class_overwritten :
    Writes sharing loadedProxy updatedProxy {} ∧
      (run sharing (some loadedProxy) (some updatedProxy) {}).output =
        ["org/hotfield/proxy/FieldProxy$0: 1 added, 0 static, 0 removed"] ∧
      (run sharing (some loadedProxy) (some updatedProxy) {}).errors = [] ∧
      ¬ OutputsKept sharing loadedProxy updatedProxy {} := by
  obtain ⟨bytes, content, hverdicts, hwrites, hload, hother⟩ := proxy_redefined
  have hplain : proxyPath.Plain ∧ Path.Plain ["out"] := by
    unfold Path.Plain
    decide
  have hpaths : ∀ file ∈ updatedProxy.files, Path.Plain file.1 := by
    intro file hfile
    cases List.mem_singleton.mp hfile
    exact hplain.1
  have hproper : updatedProxy.Proper := List.nodup_singleton proxyPath
  refine ⟨hwrites, ?_, ?_, ?_⟩
  · rw [(reported_of_writes hwrites).output, hverdicts]
    rfl
  · rw [(reported_of_writes hwrites).errors, hverdicts]
    rfl
  · rw [outputs_kept_iff hproper hplain.2 hpaths hwrites]
    intro hapart
    have hplace : (generatedRoute sharing FullPool.firstName).place = ["out"] ++ proxyPath := by
      show (Route.ofText ["out"] (FullPool.firstName ++ ".class")).place = _
      rw [ofText_proxy.1]
      decide
    have hmem := List.mem_singleton_self (proxyPath, Verdict.redefined
      "org/hotfield/proxy/FieldProxy$0: 1 added, 0 static, 0 removed" bytes)
    rw [← hverdicts] at hmem
    exact hother (hapart.classes proxyPath _ bytes hmem _ content hload hplace)

end Batch

end Reshape
