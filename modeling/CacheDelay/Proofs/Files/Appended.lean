import CacheDelay.Proofs.Files.Rewritten

/-!
# Files that bytes were appended to

Bytes that are appended to a file stand behind its content, and a file that was not there holds
just them (`Appended`); what is appended piece by piece is appended in one (`Appended.trans`). A
regular file that can be written takes the bytes, and nothing else changes then (`exists_append`).
-/

namespace CacheDelay.Files.Tree

variable {t t' : Tree} {p : Path} {place : Location} {bytes more : List UInt8}
  {node? node'? node''? : Option Node}

/-- What stands at a location once bytes were appended to a regular file there. -/
inductive Appended : Option Node → List UInt8 → Option Node → Prop
  | nothing (node? : Option Node) : Appended node? [] node?
  | behind (number : Nat) (content bytes : List UInt8) :
    Appended (some (.file number content)) bytes (some (.file number (content ++ bytes)))
  | created (number : Nat) {bytes : List UInt8} (written : bytes ≠ []) :
    Appended none bytes (some (.file number bytes))

theorem Appended.trans (h : Appended node? bytes node'?) (h' : Appended node'? more node''?) :
    Appended node? (bytes ++ more) node''? := by
  cases h with
  | nothing => exact h'
  | behind number content =>
    cases h' with
    | nothing =>
      rw [List.append_nil]
      exact .behind ..
    | behind =>
      rw [List.append_assoc]
      exact .behind ..
  | created number hwritten =>
    have hboth : bytes ++ more ≠ [] := List.append_ne_nil_of_left_ne_nil hwritten more
    cases h' with
    | nothing =>
      rw [List.append_nil]
      exact .created number hwritten
    | behind => exact .created number hboth

/-- A regular file has the bytes behind its content. -/
theorem Appended.eq_of_file {number : Nat} {content : List UInt8}
    (h : Appended (some (.file number content)) bytes node'?) :
    node'? = some (.file number (content ++ bytes)) := by
  cases h with
  | nothing => rw [List.append_nil]
  | behind => rfl

/-- `t'` is `t` with bytes appended to the file at `place`. -/
structure AppendedAt (t : Tree) (place : Location) (bytes : List UInt8) (t' : Tree) : Prop where
  places : t.SamePlaces t'
  appended : Appended (t.node? place) bytes (t'.node? place)
  others : ∀ other, other ≠ place → t'.node? other = t.node? other

/-- Where a regular file can be written, bytes are appended to the one that is opened there. -/
theorem exists_append (hplace : t.locateNew p = .ok place) (hwritable : t.Writable p)
    (hregular : ¬ t.IsDevice place) (hbytes : bytes ≠ []) : ∃ handle opened t',
    t.openNew p = .ok (handle, opened) ∧ opened.appendTo handle bytes = .ok t' ∧
      t.AppendedAt place bytes t' := by
  have hallowed := hwritable.allowed hplace
  obtain ⟨-, -, -, hdirectory, -⟩ := exists_reaches_of_locateNew hplace
  -- a file, new or old, comes to hold `content` and then the bytes
  have hfile {number : Nat} {content : List UInt8} {opened : Tree}
      (hopen : t.openNew p = .ok (⟨place, number⟩, opened))
      (hopened : t.WithFile place number content opened)
      (happended : Appended (t.node? place) bytes (some (.file number (content ++ bytes)))) :
      ∃ handle opened t', t.openNew p = .ok (handle, opened) ∧
        opened.appendTo handle bytes = .ok t' ∧ t.AppendedAt place bytes t' := by
    obtain ⟨t', happend, hafter⟩ := hopened.appendTo bytes
    refine ⟨_, opened, t', hopen, happend, hafter.samePlaces, ?_, hafter.others⟩
    rw [hafter.node]
    exact happended
  rcases hnode : t.node? place with _ | _ | ⟨number, content⟩ | _ | _
  · refine hfile (openNew_of_none hplace hallowed hnode) (withFile_create hdirectory []) ?_
    rw [hnode]
    exact .created _ hbytes
  · exact absurd hnode hdirectory
  · refine hfile (HasFile.openNew ⟨hplace, hnode⟩ hallowed) (withFile_self hnode) ?_
    rw [hnode]
    exact .behind ..
  · exact absurd (.inl hnode) hregular
  · exact absurd (.inr hnode) hregular

end CacheDelay.Files.Tree
