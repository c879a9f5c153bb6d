import VisualNovel.Proofs.Disk.Writing
import VisualNovel.Proofs.History.Encoding
import VisualNovel.Proofs.History.Shape

/-
  Histories on disk. A history that was saved is loaded again, and loading fails if and only if
  something lies at the path that does not hold JSON of the shape of a history (`load_save`).
-/

namespace VisualNovel.History

open ReadHistory

/-- Whether the file at a path holds a history: its text has the tokens of a tree of the shape. -/
def HoldsHistory (files : Disk.FileTree) (path : String) : Prop :=
  ∃ text t, files.readText path = .ok text ∧ Json.lex? text.toList = some t.tokens ∧ Shaped t

/-- What a file holds is read if and only if it is a history. -/
theorem holdsHistory_iff {files : Disk.FileTree} {path : String} :
    HoldsHistory files path ↔ ∃ text h, files.readText path = .ok text ∧
      (Json.readTree? text).bind ofTree? = some h := by
  constructor
  · rintro ⟨text, t, htext, hlex, hshape⟩
    obtain ⟨h, ht⟩ := Option.isSome_iff_exists.mp (isSome_ofTree?.mpr hshape)
    have hread := Json.readTree?_eq_some_iff.mpr hlex
    exact ⟨text, h, htext, Option.bind_eq_some_iff.mpr ⟨t, hread, ht⟩⟩
  · rintro ⟨text, h, htext, hread⟩
    obtain ⟨t, ht, hh⟩ := Option.bind_eq_some_iff.mp hread
    have hlex := Json.readTree?_eq_some_iff.mp ht
    exact ⟨text, t, htext, hlex, isSome_ofTree?.mp (Option.isSome_of_eq_some hh)⟩

/-- Loading fails if and only if something other than a history is there. -/
theorem load_eq_error_iff {files : Disk.FileTree} {path : String} :
    (∃ message, load files path = .error (.persistence message path)) ↔
      files.holds path = true ∧ ¬HoldsHistory files path := by
  rw [holdsHistory_iff]
  unfold load
  cases hholds : files.holds path with
  | false => simp
  | true =>
    cases htext : files.readText path with
    | error e => simp
    | ok text => cases hread : (Json.readTree? text).bind ofTree? <;> simp [hread]

/-- Where nothing is seen nothing was read yet. -/
theorem load_eq_empty {files : Disk.FileTree} {path : String} (h : files.holds path = false) :
    load files path = .ok .empty :=
  if_neg (Bool.eq_false_iff.mp h)

-- a history in a closed directory is not seen, and none in its place is an error
example :
    load ⟨[(["saves"], .closed), (["a.json", "saves"], .file (.text "[]"))], []⟩ "saves/a.json" =
      .ok .empty := by
  rfl

/-- What is loaded is well formed. -/
theorem wellFormed_of_load {files : Disk.FileTree} {path : String} {h : ReadHistory}
    (hload : load files path = .ok h) : WellFormed h := by
  unfold load at hload
  split at hload
  · split at hload
    · cases hload
    · split at hload
      case h_1 history hread =>
        obtain rfl := Except.ok.inj hload
        obtain ⟨t, -, ht⟩ := Option.bind_eq_some_iff.mp hread
        exact wellFormed_of_ofTree? ht
      case h_2 => cases hload
  · obtain rfl := Except.ok.inj hload
    exact wellFormed_empty

/-- A history that was saved is loaded again. -/
theorem load_of_save {h : ReadHistory} (hh : WellFormed h) {files files' : Disk.FileTree}
    {path : String} (hsave : save h files path = .ok files') : load files' path = .ok h := by
  unfold save at hsave
  split at hsave
  case h_1 written hwrite =>
    obtain rfl := Except.ok.inj hsave
    obtain ⟨hholds, htext⟩ := Disk.FileTree.readText_writeText hwrite
    have hread : (Json.readTree? (toJson h).print).bind ofTree? = some h := by
      rw [readTree?_print_toJson hh]
      exact ofTree?_toJson hh
    rw [load, if_pos hholds, htext]
    simp only [hread]
  case h_2 => cases hsave

/-- So is one that was loaded, with all that was noted in it since. -/
theorem load_of_save_noted {h : ReadHistory} {files files' files'' : Disk.FileTree}
    {path path' : String} (hload : load files path = .ok h) {notes : List Note}
    (hnotes : ∀ n ∈ notes, n.Fits)
    (hsave : save (notes.foldl ReadHistory.record h) files' path' = .ok files'') :
    load files'' path' = .ok (notes.foldl ReadHistory.record h) :=
  load_of_save (List.foldlRecOn notes _ (wellFormed_of_load hload)
    fun _ hh n hn => hh.record (hnotes n hn)) hsave

/-- A history that was saved is loaded again. Saving fails only where no text can be written, and
    loading only where something other than a history is; either tells of it and gives nothing. -/
theorem load_save {h : ReadHistory} (hh : WellFormed h) (files : Disk.FileTree) (path : String) :
    (∀ files', save h files path = .ok files' → load files' path = .ok h) ∧
    (∀ error, save h files path = .error error → ∃ e,
      error = .persistence ("Failed to write history file: " ++ e.text) path ∧
      ∀ text, files.writeText path text = .error e) ∧
    ((∃ message, load files path = .error (.persistence message path)) ↔
      files.holds path = true ∧ ¬HoldsHistory files path) := by
  refine ⟨fun files' hsave => ?_, fun error hsave => ?_, load_eq_error_iff⟩
  · exact load_of_save hh hsave
  · unfold save at hsave
    split at hsave
    case h_1 => cases hsave
    case h_2 e hwrite =>
      obtain rfl := Except.error.inj hsave
      exact ⟨e, rfl, Disk.FileTree.writeText_eq_error hwrite⟩

/-- Labels with signs that are escaped, and the least and the greatest page. -/
def oddHistory : ReadHistory where
  pages := [("", 0), ("\t\"a\\b\x01", -2147483648), ("夜", 2147483647)]
  viewedScenes := ["a//b", "\x7b\x7d"]
  lastSave? := some ⟨"\n,:[]", -1⟩

/-- A directory beside the one from which paths are seen. -/
def twoDirectories : Disk.FileTree :=
  ⟨[(["home"], .directory), (["saves"], .directory)], ["home"]⟩

theorem oddHistory_survives :
    WellFormed oddHistory ∧
    (∃ files', save oddHistory twoDirectories "../saves/a.json" = .ok files' ∧
      load files' "../saves/a.json" = .ok oddHistory) ∧
    ∃ error e, save oddHistory twoDirectories "saves/a.json" = .error error ∧
      error = .persistence ("Failed to write history file: " ++ Disk.DiskError.text e)
        "saves/a.json" := by
  have hwell : WellFormed oddHistory := by
    refine ⟨?_, ?_, ?_, ?_⟩
    · show List.Pairwise (· < ·) ["", "\t\"a\\b\x01", "夜"]
      decide
    · unfold IsPage
      decide
    · show List.Pairwise (· < ·) ["a//b", "\x7b\x7d"]
      decide
    · intro point hpoint
      obtain rfl := Option.some.inj hpoint
      exact rfl
  have hsave : save oddHistory twoDirectories "../saves/a.json" =
      .ok (twoDirectories.put ["a.json", "saves"] (.file (.text (toJson oddHistory).print))) := by
    rfl
  have hfails : save oddHistory twoDirectories "saves/a.json" = .error
      (.persistence "Failed to write history file: No such file or directory (os error 2)"
        "saves/a.json") := by
    rfl
  obtain ⟨e, herror, -⟩ := (load_save hwell _ _).2.1 _ hfails
  exact ⟨hwell, ⟨_, hsave, (load_save hwell _ _).1 _ hsave⟩, _, e, hfails, herror⟩

end VisualNovel.History
