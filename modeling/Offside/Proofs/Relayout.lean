import Offside.Proofs.Spacing

set_option autoImplicit false

namespace Offside

def Source.ofRows (rows : List (List Char)) : String := String.ofList (['\n'].intercalate rows)

-- One change to the layout of rows, with the number that a row goes by afterwards and the depth that a depth has turned
-- into.
inductive Edit : (number deepen : Nat → Nat) → (rows others : List (List Char)) → Prop where
  | insert (front back : List (List Char)) (row : List Char) (void : Row.isVoid row = true) (oneRow : '\n' ∉ row) :
      Edit (fun line => if line ≤ front.length then line else line + 1) (fun depth => depth)
        (front ++ back) (front ++ row :: back)
  | endReturn (front back : List (List Char)) (row : List Char) (last : row.getLast? ≠ some '\r') :
      Edit (fun line => line) (fun depth => depth) (front ++ row :: back) (front ++ (row ++ ['\r']) :: back)
  | widen (front back : List (List Char)) (row : List Char) (earlier later : List Run) (word spaces : List Char)
      (extra : Nat) (scanned : Run.ofRow row = earlier ++ .word word :: .gap spaces :: later) :
      Edit (fun line => line) (fun depth => depth) (front ++ row :: back)
        (front ++ (earlier ++ .word word :: .gap (List.replicate extra ' ' ++ spaces) :: later).flatMap Run.text :: back)
  | reindent (rows : List (List Char)) (deepen : Nat → Nat) (increasing : StrictMono deepen) (base : deepen 0 = 0) :
      Edit (fun line => line) deepen rows (rows.map (Row.reindent deepen))

inductive Edits : (number deepen : Nat → Nat) → (rows others : List (List Char)) → Prop where
  | none (rows : List (List Char)) : Edits (fun line => line) (fun depth => depth) rows rows
  | more (number deepen number' deepen' : Nat → Nat) (rows middle others : List (List Char))
      (edits : Edits number deepen rows middle) (edit : Edit number' deepen' middle others) :
      Edits (fun line => number' (number line)) (fun depth => deepen' (deepen depth)) rows others

namespace Line

theorem reindent_same (line : Line) : line.reindent (fun depth => depth) = line := by
  unfold reindent
  split
  · next depth rest shape =>
      obtain ⟨number, symbols⟩ := line
      exact congrArg (Line.mk number) shape.symm
  · rfl

theorem of_row_alike (deepen : Nat → Nat) (place : Nat) (row other : List Char) (alike : Row.Alike deepen row other) :
    ofRow place other = ((ofRow place row).map (Option.map (Line.reindent deepen))).mapError (Error.reindent deepen) := by
  rw [ofRow, ofRow, alike.void, alike.words, alike.depth]
  cases Row.isVoid (Row.dropReturn row) with
  | true => rfl
  | false => cases symbolsOfWords (Run.words (Row.dropReturn row)) <;> rfl

theorem of_rows_reindent (deepen : Nat → Nat) (increasing : StrictMono deepen) (base : deepen 0 = 0) (place : Nat)
    (rows : List (List Char)) :
    ofRows place (rows.map (Row.reindent deepen)) =
      ((ofRows place rows).map (List.map (Line.reindent deepen))).mapError (Error.reindent deepen) := by
  induction rows generalizing place with
  | nil => rfl
  | cons row more ih =>
      have alike := Row.alike_reindent deepen increasing base row
      rw [List.map_cons, of_rows_cons, of_rows_cons, of_row_alike deepen place row _ alike, map_to_list,
        map_followed_by, ih]

theorem of_rows_alike (place : Nat) (front back : List (List Char)) (row other : List Char)
    (alike : Row.Alike (fun depth => depth) row other) :
    ofRows place (front ++ other :: back) = ofRows place (front ++ row :: back) := by
  have same : ∀ place, ofRow place other = ofRow place row := by
    intro place
    rw [of_row_alike _ place row other alike]
    cases ofRow place row with
    | error failure => exact congrArg Except.error (Error.reindent_same failure)
    | ok line => cases line <;> simp [Except.map, Except.mapError, reindent_same]
  rw [of_rows_append, of_rows_append, of_rows_cons, of_rows_cons, same]

theorem of_row_void (place : Nat) (row : List Char) (void : Row.isVoid row = true) : ofRow place row = .ok none := by
  rw [ofRow, Row.void_drop_return row void, if_pos rfl]

theorem of_rows_insert (front back : List (List Char)) (row : List Char) (void : Row.isVoid row = true) :
    ofRows 1 (front ++ row :: back) =
      renumberRead (fun line => if line ≤ front.length then line else line + 1) (ofRows 1 (front ++ back)) := by
  have above : ofRows 1 front =
      renumberRead (fun line => if line ≤ front.length then line else line + 1) (ofRows 1 front) := by
    apply of_rows_renumber
    intro shift inside
    exact if_pos (by omega)
  have below : ofRows (1 + front.length + 1) back =
      renumberRead (fun line => if line ≤ front.length then line else line + 1) (ofRows (1 + front.length) back) := by
    apply of_rows_renumber
    intro shift inside
    rw [if_neg (by omega)]
    omega
  rw [of_rows_append, of_rows_cons, of_row_void _ row void, of_rows_append, renumber_followed_by, ← above, ← below]
  exact congrArg (followedBy _) (nothing_followed_by _)

end Line

namespace Edit

theorem nonempty (number deepen : Nat → Nat) (rows others : List (List Char)) (edit : Edit number deepen rows others)
    (filled : rows ≠ []) : others ≠ [] := by
  cases edit with
  | reindent rows deepen increasing base => simpa using filled
  | _ => simp

theorem one_row (number deepen : Nat → Nat) (rows others : List (List Char))
    (edit : Edit number deepen rows others) (oneRow : ∀ row ∈ rows, '\n' ∉ row) : ∀ row ∈ others, '\n' ∉ row := by
  cases edit with
  | insert front back row void here =>
      obtain ⟨above, below⟩ := List.forall_mem_append.mp oneRow
      exact List.forall_mem_append.mpr ⟨above, List.forall_mem_cons.mpr ⟨here, below⟩⟩
  | endReturn front back row last =>
      obtain ⟨above, rest⟩ := List.forall_mem_append.mp oneRow
      obtain ⟨here, below⟩ := List.forall_mem_cons.mp rest
      exact List.forall_mem_append.mpr ⟨above, List.forall_mem_cons.mpr ⟨by simpa using here, below⟩⟩
  | widen front back row earlier later word spaces extra scanned =>
      obtain ⟨above, rest⟩ := List.forall_mem_append.mp oneRow
      obtain ⟨here, below⟩ := List.forall_mem_cons.mp rest
      rw [← Run.of_row_text row, scanned] at here
      exact List.forall_mem_append.mpr ⟨above, List.forall_mem_cons.mpr ⟨by simpa [Run.text] using here, below⟩⟩
  | reindent rows deepen increasing base =>
      intro other member feed
      obtain ⟨row, present, rfl⟩ := List.mem_map.mp member
      rcases List.mem_append.mp feed with space | content
      · cases List.eq_of_mem_replicate space
      · exact oneRow row present ((List.dropWhile_sublist Row.isSpace).mem content)

end Edit

namespace Edits

theorem nonempty (number deepen : Nat → Nat) (rows others : List (List Char)) (edits : Edits number deepen rows others)
    (filled : rows ≠ []) : others ≠ [] := by
  induction edits with
  | none rows => exact filled
  | more _ _ number' deepen' rows middle others edits edit ih => exact edit.nonempty _ _ _ _ (ih filled)

theorem one_row (number deepen : Nat → Nat) (rows others : List (List Char))
    (edits : Edits number deepen rows others) (oneRow : ∀ row ∈ rows, '\n' ∉ row) : ∀ row ∈ others, '\n' ∉ row := by
  induction edits with
  | none rows => exact oneRow
  | more _ _ number' deepen' rows middle others edits edit ih => exact edit.one_row _ _ _ _ (ih oneRow)

end Edits

def Command.relay (number deepen : Nat → Nat) (read : Except Error (List Command)) : Except Error (List Command) :=
  (read.map (renumberAll number)).mapError fun failure => (failure.reindent deepen).renumber number

namespace Command

theorem relay_level (number : Nat → Nat) (read : Except Error (List Command)) :
    relay number (fun depth => depth) read = (read.map (renumberAll number)).mapError (Error.renumber number) := by
  cases read with
  | ok commands => rfl
  | error failure => exact congrArg (fun same => Except.error (Error.renumber number same)) failure.reindent_same

theorem relay_placed (deepen : Nat → Nat) (read : Except Error (List Command)) :
    relay (fun line => line) deepen read = read.mapError (Error.reindent deepen) := by
  cases read with
  | ok commands => exact congrArg Except.ok (renumber_all_same commands)
  | error failure => cases failure <;> rfl

theorem relay_same (read : Except Error (List Command)) : relay (fun line => line) (fun depth => depth) read = read := by
  rw [relay_placed]
  cases read with
  | ok commands => rfl
  | error failure => exact congrArg Except.error failure.reindent_same

theorem relay_relay (number deepen number' deepen' : Nat → Nat) (read : Except Error (List Command)) :
    relay number' deepen' (relay number deepen read) =
      relay (fun line => number' (number line)) (fun depth => deepen' (deepen depth)) read := by
  cases read with
  | ok commands => exact congrArg Except.ok (renumber_all_renumber_all number' number commands)
  | error failure =>
      cases failure with
      | shape line cause => cases cause <;> rfl
      | _ => rfl

def ofRows (rows : List (List Char)) : Except Error (List Command) := (Line.ofRows 1 rows).bind ofLines

theorem of_rows_edit (number deepen : Nat → Nat) (rows others : List (List Char))
    (edit : Edit number deepen rows others) : ofRows others = relay number deepen (ofRows rows) := by
  cases edit with
  | insert front back row void oneRow =>
      rw [ofRows, ofRows, Line.of_rows_insert front back row void]
      rw [relay_level]
      cases Line.ofRows 1 (front ++ back) with
      | ok lines => exact of_lines_map_renumber _ lines
      | error failure => rfl
  | endReturn front back row last =>
      rw [ofRows, Line.of_rows_alike 1 front back row _ (Row.alike_return row last), relay_same, ofRows]
  | widen front back row earlier later word spaces extra scanned =>
      have alike := Row.alike_gap row earlier later word spaces extra scanned
      rw [ofRows, Line.of_rows_alike 1 front back row _ alike, relay_same, ofRows]
  | reindent rows deepen increasing base =>
      rw [ofRows, ofRows, Line.of_rows_reindent deepen increasing base, relay_placed]
      cases Line.ofRows 1 rows with
      | ok lines => exact of_lines_reindent deepen increasing base lines
      | error failure => rfl

theorem of_rows_edits (number deepen : Nat → Nat) (rows others : List (List Char))
    (edits : Edits number deepen rows others) : ofRows others = relay number deepen (ofRows rows) := by
  induction edits with
  | none rows => rw [relay_same]
  | more number deepen number' deepen' rows middle others edits edit ih =>
      rw [of_rows_edit number' deepen' middle others edit, ih, relay_relay]

theorem of_source_of_rows (rows : List (List Char)) (nonempty : rows ≠ []) (oneRow : ∀ row ∈ rows, '\n' ∉ row) :
    ofSource (Source.ofRows rows) = ofRows rows := by
  rw [ofSource, Line.ofSource, Source.ofRows, String.toList_ofList, Row.cut_intercalate rows nonempty oneRow, ofRows]

/-- Layout decides on nothing but the rows and depths that are told in what is read. -/
theorem of_source_relaid (source : String) (number deepen : Nat → Nat) (rows : List (List Char))
    (edits : Edits number deepen (Row.cut source.toList) rows) :
    ofSource (Source.ofRows rows) =
      ((ofSource source).map (renumberAll number)).mapError fun failure => (failure.reindent deepen).renumber number := by
  have nonempty := Edits.nonempty _ _ _ _ edits (Row.cut_ne_nil source.toList)
  have oneRow := Edits.one_row _ _ _ _ edits (Row.one_row_cut source.toList)
  rw [of_source_of_rows rows nonempty oneRow, of_rows_edits number deepen _ rows edits]
  rfl

theorem of_source_relaid_block :
    let source := "if ?true\n log 1"
    let rows := ["# if".toList, "if ?true\r".toList, "   log   1".toList]
    Edits (fun line => if line ≤ 0 then line else line + 1) (fun depth => 3 * depth) (Row.cut source.toList) rows ∧
      ofSource source = .ok [⟨1, .branch (.boolean true), [⟨2, .log (.integer 1), []⟩]⟩] ∧
      ofSource (Source.ofRows rows) = .ok [⟨2, .branch (.boolean true), [⟨3, .log (.integer 1), []⟩]⟩] := by
  have plain : ofSource "if ?true\n log 1" = .ok [⟨1, .branch (.boolean true), [⟨2, .log (.integer 1), []⟩]⟩] := by
    with_unfolding_all rfl
  intro source rows
  let comment := "# if".toList
  let branch := "if ?true".toList
  let body := " log 1".toList
  have increasing : StrictMono fun depth => 3 * depth := fun depth deeper less => by dsimp only; omega
  have scanned : Run.ofRow body = [.gap [' ']] ++ .word "log".toList :: .gap [' '] :: [.word ['1']] := by decide +kernel
  have commented := (Edits.none [branch, body]).more _ _ _ _ _ _ _
    (.insert [] [branch, body] comment (by decide +kernel) (by decide +kernel))
  have returned := commented.more _ _ _ _ _ _ _ (.endReturn [comment] [body] branch (by decide +kernel))
  have widened := returned.more _ _ _ _ _ _ _ (.widen [comment, branch ++ ['\r']] [] body _ _ _ _ 2 scanned)
  have wider : List.flatMap Run.text
      ([.gap [' ']] ++ .word "log".toList :: .gap (List.replicate 2 ' ' ++ [' ']) :: [.word ['1']]) =
        " log   1".toList := by decide +kernel
  rw [wider] at widened
  have edits := widened.more _ _ _ _ _ _ _ (.reindent _ (fun depth => 3 * depth) increasing rfl)
  have first : [branch, body] = Row.cut source.toList := by decide +kernel
  have last : ([comment, branch ++ ['\r']] ++ [" log   1".toList]).map (Row.reindent fun depth => 3 * depth) = rows := by
    decide +kernel
  rw [first, last] at edits
  refine ⟨edits, plain, ?_⟩
  rw [of_source_relaid source _ _ rows edits, plain]
  rfl

end Command

end Offside
