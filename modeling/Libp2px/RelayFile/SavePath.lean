import Libp2px.Lib.Paths
import Libp2px.RelayFile.Order

/-!
# Where received files go

The paths that `HandleFileStream` makes of the receive directory and the name that the peer sent.  `filepath.Base` takes
the last element of the name, but that need not be the name of a file: it is a dot, two dots or a slash for some names,
and `filepath.Join` then gives the receive directory or its parent.  The suffix of the `.part` file is added to the text
of that path, so that file lies beside the directory.
-/

namespace Libp2px.RelayFile

/-- `saveDir` of `HandleFileStream`, with the path that `getRecvDir` returns. -/
def saveDir (recvDir : String) : String := if recvDir = "" then "." else recvDir

/-- `finalPath` of `HandleFileStream`: `filepath.Join(saveDir, filepath.Base(init.Name))`. -/
def finalPath (recvDir name : String) : String :=
  .ofList (Paths.join [(saveDir recvDir).toList, Paths.base name.toList])

def Env.withDir (env : Env) (recvDir : String) : Env := { env with finalPath := RelayFile.finalPath recvDir }

/-- The path names an entry of the directory. -/
def Inside (dir path : String) : Prop := ∃ n, Paths.IsChild dir.toList path.toList n

theorem saveDir_ne_nil (recvDir : String) : (saveDir recvDir).toList ≠ [] := by
  unfold saveDir
  split
  · exact List.cons_ne_nil _ _
  · rename_i hne
    intro hnil
    exact hne (String.toList_eq_nil_iff.1 hnil)

theorem toList_savePath (env : Env) (recvDir : String) (s : Session) :
    (s.savePath (env.withDir recvDir)).toList =
      Paths.join [(saveDir recvDir).toList, Paths.base s.init.name.toList] :=
  String.toList_ofList

theorem proper_append_part {n : Paths.Name} (h : Paths.Proper n) : Paths.Proper (n ++ ".relayfile.part".toList) := by
  have hlong : ∀ short : Paths.Name, short.length < 15 → n ++ ".relayfile.part".toList ≠ short := by
    rintro _ hshort rfl
    rw [List.length_append] at hshort
    have hlen : ".relayfile.part".toList.length = 15 := rfl
    omega
  refine ⟨hlong [] (by decide), fun hmem => ?_, hlong _ (by decide), hlong _ (by decide)⟩
  rcases List.mem_append.1 hmem with hmem | hmem
  · exact h.2.1 hmem
  · exact absurd hmem (by decide)

/-- The file and its `.part` file are entries of the receive directory exactly if the last element of the name is the
name of a file. -/
theorem received_files_inside_iff (env : Env) (recvDir : String) (s : Session) :
    (Inside (saveDir recvDir) (s.savePath (env.withDir recvDir)) ∧
        Inside (saveDir recvDir) (s.tmpPath (env.withDir recvDir))) ↔
      Paths.Proper (Paths.base s.init.name.toList) := by
  have hdir := saveDir_ne_nil recvDir
  have hfinal : Inside (saveDir recvDir) (s.savePath (env.withDir recvDir)) ↔
      Paths.Proper (Paths.base s.init.name.toList) := by
    unfold Inside
    rw [toList_savePath]
    exact Paths.isChild_join_base hdir _
  rw [hfinal, and_iff_left_iff_imp]
  intro hproper
  unfold Inside Session.tmpPath
  rw [String.toList_append, toList_savePath]
  exact ⟨_, Paths.isChild_append hdir hproper (proper_append_part hproper)⟩

def named (name : String) : Session :=
  { init := { name, size := 0, chunkSize := 1, totalChunks := 0, checksum := .other "", offset := 0, compression := "none" } }

/-- The name `..` puts the `.part` file two directories up, and the empty name puts it beside the receive directory. -/
theorem part_outside :
    (named "..").savePath (plainEnv.withDir "/home/u/recv") = "/home/u" ∧
      (named "..").tmpPath (plainEnv.withDir "/home/u/recv") = "/home/u.relayfile.part" ∧
      ¬Inside "/home/u/recv" "/home/u" ∧ ¬Inside "/home/u/recv" "/home/u.relayfile.part" ∧
      (named "").tmpPath (plainEnv.withDir "/home/u/recv") = "/home/u/recv.relayfile.part" ∧
      ¬Inside "/home/u/recv" "/home/u/recv.relayfile.part" := by
  have houtside : ∀ path : String, (Paths.names path.toList).dropLast ≠ Paths.names "/home/u/recv".toList →
      ¬Inside "/home/u/recv" path := by
    rintro path hne ⟨n, -, -, heq⟩
    exact hne (by rw [heq, List.dropLast_concat])
  refine ⟨by rfl, by rfl, houtside _ (by decide), houtside _ (by decide), by rfl, houtside _ (by decide)⟩

end Libp2px.RelayFile
