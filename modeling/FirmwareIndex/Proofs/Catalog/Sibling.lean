import FirmwareIndex.Proofs.Catalog.Packages
import FirmwareIndex.Proofs.Path.Sibling

/-!
# Packages and the platforms beside them

A package keeps the platform description beside it once that has been looked for, so a catalog that
stores another document for it has to take the package back. `Packages.Tended` says that this has
been done: a package has the document that is stored, or it has not looked yet. Taking in the
outcome of a file and forgetting a file keep this (`Catalog.tended_take`, `Catalog.tended_forget`),
since a stored document leads back to the package beside it. Once the libraries have been found anew
every package shows the document that is stored (`Catalog.shown_rebuild`). Both are said of the
packages whose files have the extension `dec` without capitals (`Package.Findable`).
-/

set_option autoImplicit false

namespace FirmwareIndex

/-- The path ends in the name of a file. -/
structure Path.Names (p : Path) : Prop where
  fileName : p.fileName?.isSome
  trimmed : p.trimmed = p.text

/-- The file of the package has the extension that is looked for beside a platform description,
which is written without capitals. -/
def Package.Findable (p : Package) : Prop :=
  p.file.writtenExtension? = some FileKind.declaration.extension

/-- The package shows what a platform document says. -/
structure Package.Shows (p : Package) (d : Document) : Prop where
  components : p.components = (Reduced.ofDocument d).components
  libraryClasses : p.libraryClasses =
    (Reduced.ofDocument d).libraries.map fun _ classes => classes.toList.map fun c => ⟨c.1, c.2⟩

/-- A package that has loaded a document shows it. -/
theorem Package.shows_of_loaded {p : Package} {d : Document}
    (h : p.sibling = .loaded (.ofDocument d)) : p.Shows d := by
  have hplatform : p.platform? = some (.ofDocument d) := by rw [platform?, h]
  exact ⟨by rw [Package.components, hplatform], by rw [Package.libraryClasses, hplatform]⟩

namespace Platforms

variable {ps : Platforms} {d : Document} {file : Path}

/-- The documents are those of the files that they are found under, and these have names. -/
def Keyed (ps : Platforms) : Prop :=
  ∀ (d : Document) (k : List Component), ps.documents[k]? = some d →
    d.file.components = k ∧ d.file.fileName?.isSome

/-- No documents are under no files. -/
theorem keyed_empty : empty.Keyed := by
  simp [Keyed, empty]

/-- Under each key is the new document or one that was there. -/
theorem of_getElem?_insert {d' : Document} {k : List Component}
    (h : (ps.insert d).documents[k]? = some d') :
    (d.file.components = k ∧ d' = d) ∨ (d.file.components ≠ k ∧ ps.documents[k]? = some d') := by
  rw [insert, Std.ExtTreeMap.getElem?_insert] at h
  split at h
  · rename_i hkey
    exact .inl ⟨Std.LawfulEqCmp.compare_eq_iff_eq.1 hkey, (Option.some.inj h).symm⟩
  · rename_i hkey
    exact .inr ⟨fun heq => hkey (Std.LawfulEqCmp.compare_eq_iff_eq.2 heq), h⟩

/-- Under each key is a document that was there, and none of the file that was taken out. -/
theorem of_getElem?_remove {k : List Component} (h : (ps.remove file).documents[k]? = some d) :
    file.components ≠ k ∧ ps.documents[k]? = some d := by
  rw [remove, Std.ExtTreeMap.getElem?_erase] at h
  split at h
  · cases h
  · rename_i hkey
    exact ⟨fun heq => hkey (Std.LawfulEqCmp.compare_eq_iff_eq.2 heq), h⟩

/-- The document of a file with a name can be put in. -/
theorem Keyed.insert (h : ps.Keyed) (hd : d.file.fileName?.isSome) : (ps.insert d).Keyed := by
  intro d' k hk
  rcases of_getElem?_insert hk with ⟨hkey, rfl⟩ | ⟨_, hk⟩
  · exact ⟨hkey, hd⟩
  · exact h d' k hk

/-- Taking out a document leaves the others under their files. -/
theorem Keyed.remove (h : ps.Keyed) (file : Path) : (ps.remove file).Keyed :=
  fun d k hk => h d k (of_getElem?_remove hk).2

/-- What is found when a document has been put in. -/
theorem get?_insert (ps : Platforms) (d : Document) (file : Path) :
    (ps.insert d).get? file = if d.file.Same file then some d else ps.get? file := by
  rw [get?, insert, Std.ExtTreeMap.getElem?_insert]
  exact if_congr Std.LawfulEqCmp.compare_eq_iff_eq rfl rfl

/-- What is found when a document has been taken out. -/
theorem get?_remove (ps : Platforms) (path file : Path) :
    (ps.remove path).get? file = if path.Same file then none else ps.get? file := by
  rw [get?, remove, Std.ExtTreeMap.getElem?_erase]
  exact if_congr Std.LawfulEqCmp.compare_eq_iff_eq rfl rfl

end Platforms

namespace Packages

/-- Every package has the document that is stored for the platform description beside it, or has not
looked for it. -/
structure Tended (ps : Packages) (platforms : Platforms) : Prop where
  proper : ps.Proper
  names : ∀ p ∈ ps.all, p.file.trimmed = p.file.text
  keyed : platforms.Keyed
  sibling : ∀ p ∈ ps.all, p.Findable → ∀ d, platforms.get? p.platformPath = some d →
    p.sibling = .unknown ∨ p.sibling = .loaded (.ofDocument d)

/-- Every package has the document that is stored for the platform description beside it. -/
def Shown (ps : Packages) (platforms : Platforms) : Prop :=
  ∀ p ∈ ps.all, p.Findable → ∀ d, platforms.get? p.platformPath = some d →
    p.sibling = .loaded (.ofDocument d)

variable {ps : Packages} {platforms platforms' : Platforms} {p : Package} {path file : Path}
  {r : ModuleRecord}

/-- Nothing but the new package comes to the packages. -/
theorem mem_add {q : Package} (h : q ∈ (ps.add p).all) : q = p ∨ q ∈ ps.all := by
  unfold add at h
  split at h
  · exact mem_replace h
  · exact (List.mem_append.1 h).symm.imp_left List.mem_singleton.1

/-- No packages have all that is stored for them. -/
theorem tended_empty : empty.Tended .empty where
  proper := proper_empty
  names := by simp [empty]
  keyed := Platforms.keyed_empty
  sibling := by simp [empty]

namespace Tended

/-- A package that is new has not looked for the platform description beside it. -/
theorem add (h : ps.Tended platforms) (hr : r.path.trimmed = r.path.text) :
    (ps.add (.ofDeclaration r)).Tended platforms where
  proper := h.proper.add rfl
  names p hp := by
    rcases mem_add hp with rfl | hp
    · exact hr
    · exact h.names p hp
  keyed := h.keyed
  sibling p hp hfound d hd := by
    rcases mem_add hp with rfl | hp
    · exact .inl rfl
    · exact h.sibling p hp hfound d hd

/-- The packages that are left have what is stored for them. -/
theorem remove (h : ps.Tended platforms) (path : Path) : (ps.remove path).Tended platforms where
  proper := h.proper.remove path
  names p hp := h.names p (List.mem_of_mem_eraseP hp)
  keyed := h.keyed
  sibling p hp := h.sibling p (List.mem_of_mem_eraseP hp)

end Tended

end Packages

namespace Catalog

open Packages

variable {c : Catalog} {file path : Path} {s : Setting}

/-- A package that has to look beside itself again does not matter to the platforms. -/
theorem platforms_refreshSibling (c : Catalog) (platform : Path) :
    (c.refreshSibling platform).platforms = c.platforms := by
  unfold refreshSibling
  split <;> rfl

/-- The packages are tended once the one beside a platform file has been taken back, if no document
of another file has changed. -/
theorem tended_refreshSibling (old : Platforms) (h : c.packages.Tended old)
    (hfile : file.fileName?.isSome) (hkeyed : c.platforms.Keyed)
    (hother : ∀ q : Path, ¬ file.Same q → c.platforms.get? q = old.get? q) :
    (c.refreshSibling file).packages.Tended (c.refreshSibling file).platforms := by
  have hback : ∀ p : Package, p.Findable → p.file.trimmed = p.file.text →
      file.Same p.platformPath → (file.withExtension FileKind.declaration.extension).Same p.file :=
    fun p hfound htrimmed hsame =>
      Path.withExtension_withExtension hfound htrimmed hfile .platform hsame
  rw [platforms_refreshSibling]
  unfold refreshSibling
  split
  · rename_i hnone
    refine ⟨h.proper, h.names, hkeyed, fun p hp hfound d hd => ?_⟩
    by_cases hsame : file.Same p.platformPath
    · rw [Packages.find?_congr _ (hback p hfound (h.names p hp) hsame),
        h.proper.find?_file hp] at hnone
      cases hnone
    · exact h.sibling p hp hfound d (hother _ hsame ▸ hd)
  · rename_i q hq
    have hq' : q ∈ c.packages.all := List.mem_of_find?_eq_some hq
    have hplace : q.file.Same (file.withExtension FileKind.declaration.extension) := by
      simpa using List.find?_some hq
    have hadded : (c.packages.add (.ofDeclaration q.declaration)).Tended old :=
      h.add (h.proper.file q hq' ▸ h.names q hq')
    refine ⟨hadded.proper, hadded.names, hkeyed, fun p hp hfound d hd => ?_⟩
    by_cases hsame : file.Same p.platformPath
    · have hnew : (Package.ofDeclaration q.declaration).file.Same p.file := by
        have hqp := hplace.trans (hback p hfound (hadded.names p hp) hsame)
        rw [h.proper.file q hq'] at hqp
        exact hqp
      have hp' := hadded.proper.find?_file hp
      rw [find?_add, if_pos hnew] at hp'
      exact .inl (Option.some.inj hp' ▸ rfl)
    · exact hadded.sibling p hp hfound d (hother _ hsame ▸ hd)

/-- Taking in the outcome of a file keeps the packages tended. -/
theorem tended_take (h : c.packages.Tended c.platforms) (s : Setting) (kind : FileKind)
    (hpath : path.Names) :
    (c.take (.ofFile s kind path)).packages.Tended (c.take (.ofFile s kind path)).platforms := by
  cases kind with
  | module => exact h
  | declaration => exact h.add (by rw [ModuleRecord.path_ofFile, hpath.trimmed])
  | platform =>
    have hfile : (Document.ofFile s path).file.fileName?.isSome := by
      rw [Document.file_ofFile]
      exact hpath.fileName
    exact tended_refreshSibling c.platforms h hfile (h.keyed.insert hfile) fun q hq =>
      (c.platforms.get?_insert _ q).trans (if_neg hq)

/-- Forgetting a file keeps the packages tended. -/
theorem tended_forget (h : c.packages.Tended c.platforms) (kind : FileKind)
    (hpath : path.fileName?.isSome) :
    (c.forget path kind).packages.Tended (c.forget path kind).platforms := by
  cases kind with
  | module => exact h
  | declaration => exact h.remove path
  | platform =>
    exact tended_refreshSibling c.platforms h hpath (h.keyed.remove path) fun q hq =>
      (c.platforms.get?_remove path q).trans (if_neg hq)

/-- A package that has not looked for the platform description beside it is given the document that
is stored. -/
theorem sibling_loadPackage {ps : Platforms} {p : Package} {d : Document}
    (hd : ps.get? p.platformPath = some d)
    (hsibling : p.sibling = .unknown ∨ p.sibling = .loaded (.ofDocument d)) :
    (loadPackage s ps p).sibling = .loaded (.ofDocument d) := by
  have hpreload : (p.preload (.ofDocument d)).sibling = .loaded (.ofDocument d) := by
    unfold Package.preload
    rcases hsibling with hsibling | hsibling
    · rw [hsibling]
    · rw [hsibling]
      exact hsibling
  rw [loadPackage, hd]
  dsimp only
  unfold Package.load
  rw [hpreload]
  exact hpreload

/-- Once the libraries have been found anew, the packages are tended and show what is stored. -/
theorem shown_rebuild (h : c.packages.Tended c.platforms) (s : Setting) (root : Path) :
    (c.rebuild s root).packages.Tended (c.rebuild s root).platforms ∧
      (c.rebuild s root).packages.Shown (c.rebuild s root).platforms := by
  have hload := file_declaration_loadPackage s c.platforms
  have hshown : (c.rebuild s root).packages.Shown (c.rebuild s root).platforms := by
    intro p hp hfound d hd
    obtain ⟨q, hq, rfl⟩ := List.mem_map.1 hp
    have hpath : (loadPackage s c.platforms q).platformPath = q.platformPath := by
      rw [Package.platformPath, (hload q).1, Package.platformPath]
    rw [hpath] at hd
    rw [Package.Findable, (hload q).1] at hfound
    exact sibling_loadPackage hd (h.sibling q hq hfound d hd)
  refine ⟨⟨h.proper.map hload, fun p hp => ?_, h.keyed, ?_⟩, hshown⟩
  · obtain ⟨q, hq, rfl⟩ := List.mem_map.1 hp
    rw [(hload q).1]
    exact h.names q hq
  · exact fun p hp hfound d hd => .inr (hshown p hp hfound d hd)

end Catalog

end FirmwareIndex
