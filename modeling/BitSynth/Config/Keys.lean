import BitSynth.Config.Store

namespace BitSynth.Config.Key

def scope : String := "synth.expropt."

def verbose : String := scope ++ "verbose"
def cleanTmpFiles : String := scope ++ "clean_tmp_files"
def defaultLoad : String := scope ++ "default_load"
def drivingCell : String := scope ++ "driving_cell"
def libertyTypical : String := scope ++ "liberty_tt_typtemp"
def libertySlowHot : String := scope ++ "liberty_ss_hightemp"
def libertyFastCold : String := scope ++ "liberty_ff_lowtemp"
def libertyFastHot : String := scope ++ "liberty_ff_hightemp"
def qrcMax : String := scope ++ "qrc_rcmax"
def qrcMin : String := scope ++ "qrc_rcmin"
def qrcTyp : String := scope ++ "qrc_rctyp"
def highTemp : String := scope ++ "hightemp"
def lowTemp : String := scope ++ "lowtemp"
def typTemp : String := scope ++ "typtemp"
def searchPath : String := scope ++ "searchpath"
def lef : String := scope ++ "lef"
def capTable : String := scope ++ "captable"
def timingConstraints : String := scope ++ "timing_constraint_sdf"
def useConstraints : String := scope ++ "abc.use_constraints"
def vectorizeAllPorts : String := scope ++ "vectorize_all_ports"
def cacheLocal : String := scope ++ "cache.local"
def cacheGlobal : String := scope ++ "cache.global"
def cacheInvalidate : String := scope ++ "cache.invalidate"
def cellLibQdi : String := scope ++ "act_cell_lib_qdi"
def cellLibQdiNamespace : String := scope ++ "act_cell_lib_qdi_namespace"
def cellLibQdiWire : String := scope ++ "act_cell_lib_qdi_wire_type"
def cellLibBd : String := scope ++ "act_cell_lib_bd"
def cellLibBdNamespace : String := scope ++ "act_cell_lib_bd_namespace"
def cellLibBdWire : String := scope ++ "act_cell_lib_bd_wire_type"
def installRoot : String := scope ++ "install_root"
def backendPrefix : String := scope ++ "backend_prefix"
def abcPath : String := scope ++ "abc_path"
def yosysPath : String := scope ++ "yosys_path"
def genusPath : String := scope ++ "genus_path"
def v2actPath : String := scope ++ "v2act_path"

end BitSynth.Config.Key

namespace BitSynth.Config

def defaults : Store :=
  let s : Store := {}
  let s := s.put Key.verbose (.int 1) false
  let s := s.put Key.cleanTmpFiles (.int 1) false
  let s := s.put Key.defaultLoad (.real 1.0) false
  let s := s.put Key.vectorizeAllPorts (.int 0) false
  let s := s.put Key.cellLibQdiNamespace (.text "syn") false
  let s := s.put Key.cellLibQdiWire (.text "sdtexprchan<1>") false
  let s := s.put Key.cellLibBdNamespace (.text "syn") false
  let s := s.put Key.cellLibBdWire (.text "bool") false
  let s := s.put Key.backendPrefix (.text "expropt") false
  [Key.libertyTypical, Key.libertySlowHot, Key.libertyFastCold, Key.libertyFastHot,
   Key.qrcMax, Key.qrcMin, Key.qrcTyp, Key.searchPath, Key.lef, Key.capTable,
   Key.timingConstraints].foldl (fun s k => s.put k (.text Config.none) false) s

end BitSynth.Config
