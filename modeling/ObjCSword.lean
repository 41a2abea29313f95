import ObjCSword.Laws.Window
import ObjCSword.Laws.VerseCount
import ObjCSword.Laws.LinkData
import ObjCSword.Laws.Links
import ObjCSword.Laws.Introductions
import ObjCSword.Laws.TreeEntries
import ObjCSword.Laws.DictionaryCache
import ObjCSword.Laws.InstallSources
import ObjCSword.Laws.StrongsNumbers
import ObjCSword.Laws.AboutText
import ObjCSword.Laws.VerseEnumerators
import ObjCSword.Laws.KeyEncodings
import ObjCSword.Laws.InstalledModules
import ObjCSword.Laws.ModuleFilters
import ObjCSword.Laws.ModuleCallers
import ObjCSword.Laws.BibleCallers
import ObjCSword.Laws.References
import ObjCSword.Laws.LinkQueries
import ObjCSword.Laws.AboutMarkup
import ObjCSword.Laws.AboutEscapes
import ObjCSword.Laws.SharedEnumerators
import ObjCSword.Laws.SourceListings
import ObjCSword.Laws.PaddedNumbers
import ObjCSword.Laws.BookTable
import ObjCSword.Laws.BookIndices
import ObjCSword.Laws.BookLists
import ObjCSword.Laws.LocaleChoice
import ObjCSword.Laws.Contexts
import ObjCSword.Laws.FilteredTexts
import ObjCSword.Lib.Monitor
import ObjCSword.Lib.FairTurns
import ObjCSword.Laws.ReadKeys
import ObjCSword.Laws.SharedBible
import ObjCSword.Laws.WrittenEntries
import ObjCSword.Laws.BibleLock
import ObjCSword.Laws.DictionaryLinks
import ObjCSword.Laws.SourceOwners
import ObjCSword.Laws.ModuleLists
import ObjCSword.Laws.BookLanguages
import ObjCSword.Laws.FilterProviderFactory
import ObjCSword.Laws.ModuleFolders
import ObjCSword.Laws.ObjectLeaks
