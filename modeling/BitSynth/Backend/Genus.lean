import BitSynth.Backend.Job

namespace BitSynth.Backend.Genus

/-- One analysis view: the names of its library set, timing condition, extraction corner, delay
corner and view, and its cell library, extraction file and temperature. -/
structure Corner where
  librarySet : String
  condition : String
  rcCorner : String
  delayCorner : String
  view : String
  liberty : String := ""
  qrc : String := ""
  temp : Int := 0
  deriving Inhabited

/-- The settings of every run: the library search path, the typical cell library, the layout
library, the capacitance table, the constraints file and the corners, with a flag per corner
kind. -/
structure Settings where
  searchPath : String := ""
  liberty : String := ""
  lef : String := ""
  capTable : String := ""
  constraints : String := ""
  corners : List Corner := []
  slow : Bool := false
  fast : Bool := false
  typ : Bool := false
  powerMax : Bool := false
  deriving Inhabited

/-- The slow corner: slow cells, maximal extraction, high temperature. -/
def slowCorner : Corner :=
  { librarySet := "LIB_SET_TIMING_SLOW", condition := "TIMING_COND_SLOW",
    rcCorner := "RC_CORNER_RCMAX_HIGHTEMP", delayCorner := "CORNER_TIMING_SLOW",
    view := "ANALYSIS_VIEW_TIMING_SLOW" }

/-- The fast corner: fast cells, minimal extraction, low temperature. -/
def fastCorner : Corner :=
  { librarySet := "LIB_SET_TIMING_FAST", condition := "TIMING_COND_FAST",
    rcCorner := "RC_CORNER_RCMIN_LOWTEMP", delayCorner := "CORNER_TIMING_FAST",
    view := "ANALYSIS_VIEW_TIMING_FAST" }

def typCorner : Corner :=
  { librarySet := "LIB_SET_TYP", condition := "TIMING_COND_TYP",
    rcCorner := "RC_CORNER_RCTYP_TYPTEMP", delayCorner := "CORNER_TYP", view := "ANALYSIS_VIEW_TYP" }

/-- The corner of maximal power: fast cells, minimal extraction, high temperature. -/
def powerMaxCorner : Corner :=
  { librarySet := "LIB_SET_POWER_MAX", condition := "TIMING_COND_MAX_POWER",
    rcCorner := "RC_CORNER_RCMIN_MAXTEMP", delayCorner := "CORNER_POWER_MAX",
    view := "ANALYSIS_VIEW_POWER_MAX" }

/-- A corner with its files and temperature from the configuration, when all three are set. -/
def configured (cfg : Config.Store) (libKey qrcKey tempKey : String) (c : Corner) : Option Corner :=
  let c := { c with liberty := (cfg.path libKey).getD "", qrc := (cfg.path qrcKey).getD "",
                    temp := cfg.intOr tempKey 0 }
  if c.liberty.isEmpty || c.qrc.isEmpty || c.temp == 0 then none else some c

/-- Reads the settings; corners exist only with a constraints file. -/
def Settings.ofConfig (cfg : Config.Store) : Except Error Settings := do
  let liberty ← requireLiberty cfg
  let path (k : String) := (cfg.path k).getD ""
  let base : Settings :=
    { searchPath := path Config.Key.searchPath, liberty, lef := path Config.Key.lef,
      capTable := path Config.Key.capTable, constraints := path Config.Key.timingConstraints }
  if base.constraints.isEmpty then return base
  let slow := configured cfg Config.Key.libertySlowHot Config.Key.qrcMax Config.Key.highTemp slowCorner
  let fast := configured cfg Config.Key.libertyFastCold Config.Key.qrcMin Config.Key.lowTemp fastCorner
  let typ := configured cfg Config.Key.libertyTypical Config.Key.qrcTyp Config.Key.typTemp typCorner
  let power := configured cfg Config.Key.libertyFastHot Config.Key.qrcMin Config.Key.highTemp powerMaxCorner
  pure { base with corners := [slow, fast, typ, power].filterMap id, slow := slow.isSome,
                   fast := fast.isSome, typ := typ.isSome, powerMax := power.isSome }

def Corner.text (c : Corner) : String :=
  "create_library_set -name " ++ c.librarySet ++ " -timing \x7b " ++ c.liberty ++ " \x7d\n" ++
  "create_timing_condition -name " ++ c.condition ++ " -library_sets " ++ c.librarySet ++ "\n" ++
  "create_rc_corner -name " ++ c.rcCorner ++ " -temperature " ++ toString c.temp ++ " -qrc_tech " ++ c.qrc ++ "\n" ++
  "create_delay_corner -name " ++ c.delayCorner ++ " -timing_condition " ++ c.condition ++
    " -rc_corner " ++ c.rcCorner ++ "\n" ++
  "create_analysis_view -name " ++ c.view ++ " -constraint_mode CONSTRAINT_MODE_1 -delay_corner " ++
    c.delayCorner ++ "\n"

/-- The command that selects the views for hold and setup analysis and for power. -/
def Settings.viewText (s : Settings) : String :=
  let when (b : Bool) (t : String) := if b then t else ""
  "set_analysis_view -hold \x7b " ++ when s.typ " ANALYSIS_VIEW_TYP" ++ when s.fast " ANALYSIS_VIEW_TIMING_FAST" ++
  " \x7d -setup \x7b " ++ when s.typ " ANALYSIS_VIEW_TYP" ++ when s.slow " ANALYSIS_VIEW_TIMING_SLOW" ++
  when s.fast " ANALYSIS_VIEW_TIMING_FAST" ++ when s.powerMax " ANALYSIS_VIEW_POWER_MAX" ++ " \x7d" ++
  (if s.typ then " -leakage ANALYSIS_VIEW_TYP -dynamic ANALYSIS_VIEW_TYP"
   else if s.powerMax then " -leakage ANALYSIS_VIEW_POWER_MAX -dynamic ANALYSIS_VIEW_POWER_MAX" else "") ++ "\n"

def Settings.script (s : Settings) (job : Job) : String :=
  let when (b : Bool) (t : String) := if b then t else ""
  let out := job.output
  "# generated genus run file for " ++ job.top ++ "\n\n" ++
  when (!s.searchPath.isEmpty) ("set_db init_lib_search_path \"" ++ s.searchPath ++ "\"\n") ++
  "set_db fail_on_error_mesg true\n" ++
  "set_db syn_generic_effort high \n" ++
  "set_db lp_power_analysis_effort high \n" ++
  "set_db syn_map_effort high \n" ++
  "set_db syn_opt_effort high \n" ++
  "create_library_domain tt_normaltemp \n" ++
  "set_db library_domain:tt_normaltemp .library \x7b " ++ s.liberty ++ " \x7d \n" ++
  when (!s.lef.isEmpty) ("set_db lef_library \x7b " ++ s.lef ++ " \x7d \n") ++
  when (!s.capTable.isEmpty) ("set_db cap_table_file \x7b " ++ s.capTable ++ " \x7d \n") ++
  "set_db hdl_array_naming_style %s\\[%d\\] \n" ++
  "read_hdl \"" ++ job.input ++ "\"\n" ++
  "elaborate " ++ job.top ++ "\n" ++
  "set_units -time ps\n" ++
  "set_units -capacitance fF\n" ++
  "set_load_unit -femtofarads\n" ++
  "set soceSupportWireLoadMode 1\n" ++
  "set_wire_load_model -name auto_select\n" ++
  "check_design\n" ++
  "check_design -unresolved\n" ++
  when (!s.constraints.isEmpty)
    ("create_constraint_mode -name CONSTRAINT_MODE_1 -sdc_files \x7b " ++ s.constraints ++ " \x7d\n" ++
     String.join (s.corners.map Corner.text) ++ when (!s.corners.isEmpty) s.viewText) ++
  "init_design\n" ++
  "syn_generic\n" ++
  "syn_map\n" ++
  "set_db use_tiehilo_for_const " ++ (if job.tieCells then "unique" else "none") ++ "\n" ++
  "syn_opt\n" ++
  "redirect " ++ out ++ ".area.log \x7b report_gates; report_area \x7d\n" ++
  "redirect " ++ out ++ ".timing_typ.log \x7b report_timing -unconstrained" ++ when s.typ " -view ANALYSIS_VIEW_TYP" ++ " \x7d\n" ++
  when s.fast ("redirect " ++ out ++ ".timing_min.log \x7b report_timing -unconstrained -view ANALYSIS_VIEW_TIMING_FAST \x7d\n") ++
  when s.slow ("redirect " ++ out ++ ".timing_max.log \x7b report_timing -unconstrained -view ANALYSIS_VIEW_TIMING_SLOW \x7d\n") ++
  "redirect " ++ out ++ ".power_typ.log \x7b report_power" ++ when s.typ " -view ANALYSIS_VIEW_TYP" ++ " \x7d\n" ++
  when s.powerMax ("redirect " ++ out ++ ".power_max.log \x7b report_power -view ANALYSIS_VIEW_POWER_MAX \x7d\n") ++
  "write_hdl  > " ++ out ++ "\n" ++
  "write_do_lec -revised_design " ++ out ++ " -logfile " ++ out ++ ".lec.log > " ++ out ++ ".lec.do\n" ++
  "exit 0\n"

/-- The run file of a job: its source with the suffix `.tcl` for `.v`. -/
def scriptPath (job : Job) : String :=
  (if job.input.endsWith ".v" then (job.input.dropEnd 2).toString else job.input) ++ ".tcl"

end BitSynth.Backend.Genus
