namespace BitSynth.Text

/-- A line of a table: its tab-ended cells, then its trailing cell. -/
abbrev Row := List String

def Row.ended (r : Row) : Nat := r.length - 1

/-- Writes one row with the widths of the columns known so far: every cell in a known column is
padded to its width. -/
def renderRow (widths : List Nat) (r : Row) : String :=
  String.join (r.zipIdx.map fun (cell, k) =>
    match widths[k]? with
    | some w => cell ++ String.ofList (List.replicate (w - cell.length) ' ')
    | none => cell)

/-- The rows from the start that all have a cell in column `column`. -/
def blockOf (column : Nat) : List Row → List Row × List Row
  | [] => ([], [])
  | r :: rest =>
    if column < r.ended then
      let (inside, after) := blockOf column rest
      (r :: inside, after)
    else ([], r :: rest)

/-- Lays out rows column by column: rows without a cell in the next column are written with the
widths known so far; each block of rows that has one fixes that column's width and is laid out
further. `fuel` bounds the number of columns. -/
def layout (padding : Nat) : Nat → List Nat → List Row → List String
  | 0, widths, rows => rows.map (renderRow widths)
  | fuel + 1, widths, rows =>
    let column := widths.length
    let rec go : Nat → List Row → List String
      | 0, rows => rows.map (renderRow widths)
      | n + 1, [] => let _ := n; []
      | n + 1, r :: rest =>
        if column < r.ended then
          let (inside, after) := blockOf column (r :: rest)
          let width := inside.foldl (fun m row => max m ((row[column]?.getD "").length + padding)) 0
          layout padding fuel (widths ++ [width]) inside ++ go n after
        else renderRow widths r :: go n rest
    go rows.length rows

/-- Aligns the tab-separated columns of a text, padding each column to its widest cell plus
`padding` spaces. -/
def alignColumns (padding : Nat) (text : String) : String :=
  let rows : List Row := (text.splitOn "\n").map (·.splitOn "\t")
  let fuel := rows.foldl (fun m r => max m r.length) 0
  "\n".intercalate (layout padding fuel [] rows)

end BitSynth.Text
