import MdImporter.Mdast
import MdImporter.RustStr
import MdImporter.HashMap
import MdImporter.Document
import MdImporter.Inline
import MdImporter.Fragment
import MdImporter.NotionTable
import MdImporter.Walk
import MdImporter.Steps
import MdImporter.Safety
import MdImporter.Tree
import MdImporter.Siblings
import MdImporter.Images
import MdImporter.Termination
import MdImporter.Renaming
import MdImporter.Trace
import MdImporter.Order
import MdImporter.Tables
import MdImporter.SimpleTable
import MdImporter.Semantics
import MdImporter.Refinement
import MdImporter.Completeness
